import TokenPatterns.Lexicon.Synset

/-! Computations that look words up.

Compiling a pattern and matching it both look words up while they run, and what they ask next may
depend on the answers so far. An `Inquiry` is such a computation: it has its result, or it asks
for the synsets of a word and goes on with the answer. `run` answers every question from a
lexicon, a function from questions to synsets; `runWith` answers them from a state that may
change with every question. If the state always answers as a lexicon does, both have one result
(`runWith_eq_run`). -/
namespace TokenPatterns

/-- A question for the synsets of a word. An empty list of classes leaves the class open. -/
structure Query where
  language : String
  word : String
  classes : List WordClass
deriving DecidableEq

namespace Query

instance : Keyed Query where
  key q := q.language :: q.word :: q.classes.map WordClass.longName
  key_injective {a b} h := by
    obtain ⟨la, wa, ca⟩ := a
    obtain ⟨lb, wb, cb⟩ := b
    obtain ⟨hl, hw, hc⟩ : la = lb ∧ wa = wb ∧ ca.map _ = cb.map _ := by simpa using h
    have hc := List.map_inj_right (fun _ _ h => WordClass.longName_injective h) |>.1 hc
    simp [hl, hw, hc]

/-- The question with its classes in their fixed order and without repeats. -/
def normalize (q : Query) : Query := {q with classes := WordClass.normalize q.classes}

end Query

/-- A source of answers that depend on the question alone. -/
abbrev Lexicon := Query → SynsetSet

inductive Inquiry (α : Type) where
  | done (result : α)
  | ask (query : Query) (next : SynsetSet → Inquiry α)

namespace Inquiry
variable {α β σ : Type}

def bind : Inquiry α → (α → Inquiry β) → Inquiry β
  | done a, f => f a
  | ask q next, f => ask q fun ids => (next ids).bind f

instance : Monad Inquiry where
  pure := done
  bind := bind

theorem bind_done (x : Inquiry α) : x.bind done = x := by
  induction x with
  | done a => rfl
  | ask q next ih => exact congrArg (ask q) (funext ih)

theorem bind_bind {γ : Type} (x : Inquiry α) (f : α → Inquiry β) (g : β → Inquiry γ) :
    (x.bind f).bind g = x.bind fun a => (f a).bind g := by
  induction x with
  | done a => rfl
  | ask q next ih => exact congrArg (ask q) (funext ih)

instance : LawfulMonad Inquiry := LawfulMonad.mk' Inquiry bind_done (fun _ _ => rfl) bind_bind

/-- The inquiry that asks one question and has the answer as its result. -/
def lookup (q : Query) : Inquiry SynsetSet := ask q done

/-- The result when a lexicon answers. -/
def run (lexicon : Lexicon) : Inquiry α → α
  | done a => a
  | ask q next => (next (lexicon q)).run lexicon

/-- The result, and the state after it, when each question is answered from a state. -/
def runWith (answer : Query → σ → SynsetSet × σ) : Inquiry α → σ → α × σ
  | done a, s => (a, s)
  | ask q next, s =>
    let (ids, s) := answer q s
    (next ids).runWith answer s

/-- The inquiry with its questions answered in advance: it asks nothing. -/
def settle (lexicon : Lexicon) (x : Inquiry α) : Inquiry α := done (x.run lexicon)

@[simp] theorem run_pure (lexicon : Lexicon) (a : α) : (pure a : Inquiry α).run lexicon = a := rfl

@[simp] theorem run_done (lexicon : Lexicon) (a : α) : (done a).run lexicon = a := rfl

@[simp] theorem run_lookup (lexicon : Lexicon) (q : Query) : (lookup q).run lexicon = lexicon q := rfl

@[simp] theorem run_bind (lexicon : Lexicon) (x : Inquiry α) (f : α → Inquiry β) :
    (x >>= f).run lexicon = (f (x.run lexicon)).run lexicon := by
  induction x with
  | done a => rfl
  | ask q next ih => exact ih (lexicon q)

@[simp] theorem run_map (lexicon : Lexicon) (f : α → β) (x : Inquiry α) :
    (f <$> x).run lexicon = f (x.run lexicon) :=
  run_bind lexicon x fun a => pure (f a)

@[simp] theorem run_settle (own lexicon : Lexicon) (x : Inquiry α) :
    (x.settle own).run lexicon = x.run own := rfl

/-- Listed results over a lexicon are those for the members. -/
@[simp] theorem run_mapM (lexicon : Lexicon) (f : α → Inquiry β) (as : List α) :
    (as.mapM f).run lexicon = as.map fun a => (f a).run lexicon := by
  induction as with
  | nil => rfl
  | cons a as ih => simp [ih]

@[simp] theorem runWith_pure (answer : Query → σ → SynsetSet × σ) (a : α) (s : σ) :
    (pure a : Inquiry α).runWith answer s = (a, s) := rfl

@[simp] theorem runWith_bind (answer : Query → σ → SynsetSet × σ) (x : Inquiry α)
    (f : α → Inquiry β) (s : σ) :
    (x >>= f).runWith answer s =
      (f (x.runWith answer s).1).runWith answer (x.runWith answer s).2 := by
  induction x generalizing s with
  | done a => rfl
  | ask q next ih => exact ih _ _

@[simp] theorem runWith_map (answer : Query → σ → SynsetSet × σ) (f : α → β) (x : Inquiry α)
    (s : σ) : (f <$> x).runWith answer s = (f (x.runWith answer s).1, (x.runWith answer s).2) :=
  runWith_bind answer x (fun a => pure (f a)) s

/-- Two states that answer alike, and stay related when they do, give one result. -/
theorem runWith_related {τ : Type} {answer : Query → σ → SynsetSet × σ}
    {answer' : Query → τ → SynsetSet × τ} {rel : σ → τ → Prop}
    (h : ∀ q s t, rel s t → (answer q s).1 = (answer' q t).1 ∧ rel (answer q s).2 (answer' q t).2)
    (x : Inquiry α) {s : σ} {t : τ} (hst : rel s t) :
    (x.runWith answer s).1 = (x.runWith answer' t).1 ∧
      rel (x.runWith answer s).2 (x.runWith answer' t).2 := by
  induction x generalizing s t with
  | done a => exact ⟨rfl, hst⟩
  | ask q next ih =>
    obtain ⟨hq, hrel⟩ := h q s t hst
    have := ih (answer q s).1 hrel
    simp only [runWith]
    rw [← hq]
    exact this

/-- A lexicon answers the same in every state. -/
theorem runWith_lexicon (lexicon : Lexicon) (x : Inquiry α) (s : σ) :
    x.runWith (fun q s => (lexicon q, s)) s = (x.run lexicon, s) := by
  induction x with
  | done a => rfl
  | ask q next ih => exact ih (lexicon q)

/-- A state that answers every question as a lexicon does gives the lexicon's result, whatever
else it keeps track of. -/
theorem runWith_eq_run {answer : Query → σ → SynsetSet × σ} {lexicon : Lexicon} {inv : σ → Prop}
    (h : ∀ q s, inv s → (answer q s).1 = lexicon q ∧ inv (answer q s).2) (x : Inquiry α) {s : σ}
    (hs : inv s) : (x.runWith answer s).1 = x.run lexicon ∧ inv (x.runWith answer s).2 := by
  -- the lexicon is a state that has nothing to keep track of
  let stateless (q : Query) (t : Unit) : SynsetSet × Unit := (lexicon q, t)
  have hstep : ∀ q s (t : Unit), inv s →
      (answer q s).1 = (stateless q t).1 ∧ inv (answer q s).2 := fun q s _ => h q s
  have hrun := runWith_related hstep x (t := ()) hs
  rwa [runWith_lexicon] at hrun

end Inquiry
end TokenPatterns
