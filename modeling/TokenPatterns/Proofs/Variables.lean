import Mathlib.Data.List.Basic
import TokenPatterns.Matcher
import TokenPatterns.Proofs.Phrases

/-! What the variables of a match hold.

A walk takes one token after another. The words that it takes at states with one label make up the
value of this label, in the order of the text and with single spaces between them, whatever it takes
in between (`Graph.getElem?_captured`). This does not depend on who answers the questions that are
asked on the way. -/
namespace TokenPatterns

theorem phrase?_eq_none_iff {words : List String} : phrase? words = none ↔ words = [] := by
  cases words with
  | nil => exact iff_of_true rfl rfl
  | cons word words => exact iff_of_false (Option.some_ne_none _) (List.cons_ne_nil _ _)

theorem phrase?_of_ne_nil {words : List String} (h : words ≠ []) :
    phrase? words = some (" ".intercalate words) := by
  cases words with
  | nil => exact absurd rfl h
  | cons word words => rfl

namespace Graph

/-- A walk takes tokens in a row, and no more of them than it may. -/
theorem index_walk {σ : Type} (answer : Query → σ → SynsetSet × σ) (s : σ) (g : Graph) (text : Text)
    (state index remaining : Nat) :
    let steps := ((g.walk text state index remaining).runWith answer s).1
    steps.map (·.index) = List.range' index steps.length ∧ steps.length ≤ remaining := by
  induction remaining generalizing s state index with
  | zero => exact ⟨rfl, Nat.le_refl 0⟩
  | succ remaining ih =>
    rw [walk, Inquiry.runWith_bind]
    cases ((g.choose text index (g.next state)).runWith answer s).1 with
    | none => exact ⟨rfl, Nat.zero_le _⟩
    | some id =>
      obtain ⟨hindex, hlength⟩ :=
        ih ((g.choose text index (g.next state)).runWith answer s).2 id (index + 1)
      simp only [Inquiry.runWith_bind, Inquiry.runWith_pure, List.map_cons, hindex, List.length_cons,
        List.range'_succ]
      exact ⟨trivial, Nat.succ_le_succ hlength⟩

/-- The words of the tokens that a walk takes at states with a label. -/
def wordsAt (g : Graph) (text : Text) (label : String) (steps : List Step) : List String :=
  steps.filterMap fun s =>
    if g.label? s.state = some label then (text.token? s.index).map (·.text) else none

section Within

variable {g : Graph} {text : Text} {steps : List Step} (h : ∀ s ∈ steps, s.index < text.size)
include h

theorem exists_token {s : Step} (hs : s ∈ steps) : ∃ token, text.token? s.index = some token :=
  ⟨_, Array.getElem?_eq_getElem (h s hs)⟩

theorem wordsAt_eq (label : String) :
    g.wordsAt text label steps = Capture.wordsOf label (steps.map fun s =>
      (g.label? s.state, ((text.token? s.index).map (·.text)).getD "")) := by
  rw [wordsAt, Capture.wordsOf, List.filterMap_map]
  refine List.filterMap_congr fun s hs => ?_
  obtain ⟨token, htoken⟩ := exists_token h hs
  rw [Function.comp_apply, htoken]
  rfl

theorem wordsAt_eq_nil_iff (label : String) :
    g.wordsAt text label steps = [] ↔ ¬∃ s ∈ steps, g.label? s.state = some label := by
  rw [wordsAt, List.filterMap_eq_nil_iff]
  refine ⟨fun hnone ⟨s, hs, hlabel⟩ => ?_, fun hnone s hs => if_neg fun hlabel => hnone ⟨s, hs, hlabel⟩⟩
  obtain ⟨token, htoken⟩ := exists_token h hs
  have := hnone s hs
  rw [if_pos hlabel, htoken] at this
  cases this

theorem getElem?_captured (label : String) :
    (g.captured text steps)[label]? = phrase? (g.wordsAt text label steps) := by
  rw [captured, Capture.getElem?_bindings, wordsAt_eq h]

end Within

theorem outcome_of_isMatch {g : Graph} {text : Text} {steps : List Step}
    (h : (g.outcome text steps).isMatch = true) :
    (g.outcome text steps).window = steps.length ∧
      (g.outcome text steps).captures = g.captured text steps := by
  rw [outcome] at h ⊢
  split at h
  · next hfinal => rw [if_pos hfinal]; exact ⟨rfl, rfl⟩
  · cases h

/-- What is no match captures nothing. -/
theorem captures_of_not_isMatch {g : Graph} {text : Text} {steps : List Step}
    (h : (g.outcome text steps).isMatch = false) : (g.outcome text steps).captures = ∅ := by
  rw [outcome] at h ⊢
  split
  · next hfinal =>
    rw [if_pos hfinal, PatternMatch.isMatch, Bool.or_eq_false_iff, decide_eq_false_iff_not,
      decide_eq_false_iff_not, Nat.not_lt, Nat.le_zero, Nat.not_lt, Nat.le_zero] at h
    rw [List.eq_nil_of_length_eq_zero h.2]
    rfl
  · rfl

end Graph

namespace Matcher

/-- The walk of a matcher over a range. -/
def walkAt (m : Matcher) (text : Text) (start stop : Nat) : Inquiry (List Step) :=
  match m.lexicon with
  | some own => (m.graph.walkAt text start stop).settle own
  | none => m.graph.walkAt text start stop

theorem matchAt_eq_walkAt (m : Matcher) (text : Text) (start stop : Nat) :
    m.matchAt text start stop = m.graph.outcome text <$> m.walkAt text start stop := by
  rw [matchAt, walkAt]
  cases m.lexicon with
  | none => rfl
  | some own => exact congrArg Inquiry.done (Inquiry.run_map ..)

variable {σ : Type} (answer : Query → σ → SynsetSet × σ) (s : σ) (m : Matcher) (text : Text)
  (start stop : Nat)

theorem index_walkAt :
    let steps := ((m.walkAt text start stop).runWith answer s).1
    steps.map (·.index) = List.range' start steps.length ∧
      steps.length ≤ min stop text.size - start := by
  rw [walkAt]
  cases m.lexicon with
  | none => exact Graph.index_walk ..
  | some own =>
    -- the walk is over before anyone else is asked
    have hown := Graph.index_walk (fun q s => (own q, s)) s m.graph text Graph.root start
      (min stop text.size - start)
    rwa [Inquiry.runWith_lexicon] at hown

theorem within_walkAt :
    ∀ step ∈ ((m.walkAt text start stop).runWith answer s).1, step.index < text.size := by
  intro step hstep
  obtain ⟨hindex, hlength⟩ := index_walkAt answer s m text start stop
  have hmem := List.mem_map_of_mem (f := (·.index)) hstep
  rw [hindex, List.mem_range'_1] at hmem
  omega

/-- A match gives each label that its walk met all the words taken under it, with single spaces
between them: the walk takes the tokens of the range in a row, and the words of a label stand in
their order, whatever was taken between them and even if they are empty. Labels that the walk did
not meet have no value, and where there is no match none has. -/
theorem captures_matchAt :
    let steps := ((m.walkAt text start stop).runWith answer s).1
    let found := ((m.matchAt text start stop).runWith answer s).1
    (steps.map (·.index) = List.range' start steps.length ∧
      steps.length ≤ min stop text.size - start) ∧
    (found.isMatch = true → found.window = steps.length ∧ ∀ label : String,
      (label ∈ found.captures ↔ ∃ step ∈ steps, m.graph.label? step.state = some label) ∧
      (label ∈ found.captures →
        found.captures[label]? = some (" ".intercalate (m.graph.wordsAt text label steps)))) ∧
    (found.isMatch = false → found.captures = ∅) := by
  intro steps found
  have hwalk := index_walkAt answer s m text start stop
  have hfound : found = m.graph.outcome text steps := by
    show ((m.matchAt text start stop).runWith answer s).1 = _
    rw [matchAt_eq_walkAt, Inquiry.runWith_map]
  refine ⟨hwalk, fun hmatch => ?_, fun hnone => ?_⟩
  · have hwithin : ∀ step ∈ steps, step.index < text.size := within_walkAt answer s m text start stop
    have hfinal : found.window = steps.length ∧ found.captures = m.graph.captured text steps := by
      rw [hfound] at hmatch ⊢
      exact Graph.outcome_of_isMatch hmatch
    refine ⟨hfinal.1, fun label => ?_⟩
    have hmem : label ∈ found.captures ↔ m.graph.wordsAt text label steps ≠ [] := by
      rw [Std.ExtTreeMap.mem_iff_isSome_getElem?, hfinal.2, Graph.getElem?_captured hwithin,
        Option.isSome_iff_ne_none, Ne, phrase?_eq_none_iff]
    refine ⟨?_, fun hlabel => ?_⟩
    · rw [hmem, Ne, Graph.wordsAt_eq_nil_iff hwithin, not_not]
    · rw [hfinal.2, Graph.getElem?_captured hwithin, phrase?_of_ne_nil (hmem.mp hlabel)]
  · rw [hfound] at hnone ⊢
    exact Graph.captures_of_not_isMatch hnone

/-- A variable that comes twice, the second time with an empty word among those it takes; and the
same range cut off before its last token, where nothing is captured. -/
theorem captures_matchAt_twice :
    let m := standalone (fun word => word) "1" "$x aaa $x* bbb" none
    let text := Text.ofWords ["one", "aaa", "", "two", "bbb"]
    let answer : Query → Unit → SynsetSet × Unit := fun q s => (Dictionary.empty.lexicon q, s)
    let steps := ((m.walkAt text 0 5).runWith answer ()).1
    let found (stop : Nat) := ((m.matchAt text 0 stop).runWith answer ()).1
    (found 5).isMatch = true ∧ (∃ step ∈ steps, m.graph.label? step.state = some "x") ∧
      (found 5).captures["x"]? = some "one  two" ∧
      (found 4).isMatch = false ∧ (found 4).captures = ∅ := by
  intro m text answer steps found
  have hmatch : (found 5).isMatch = true := by decide +kernel
  have hlabel : ∃ step ∈ steps, m.graph.label? step.state = some "x" := by decide +kernel
  have hnone : (found 4).isMatch = false := by decide +kernel
  have hcaptures := ((captures_matchAt answer () m text 0 5).2.1 hmatch).2 "x"
  refine ⟨hmatch, hlabel, (hcaptures.2 (hcaptures.1.mpr hlabel)).trans ?_, hnone,
    (captures_matchAt answer () m text 0 4).2.2 hnone⟩
  decide +kernel

end Matcher
end TokenPatterns
