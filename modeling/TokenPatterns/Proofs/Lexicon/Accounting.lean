import TokenPatterns.Lexicon.Cache
import TokenPatterns.Proofs.Lexicon.Keys
import TokenPatterns.Proofs.Lexicon.Questions

/-! What a cache holds and what it passes on.

A ledger says, from the calls alone, of which questions a cache keeps the answers and which questions
it has passed on. Over any source of answers, one call changes the cache as it changes the ledger
(`Keeps.perform`), and so does a whole run (`Keeps.performAll`). A question whose answer was just
found is answered again without the source, in whatever order its classes are then named
(`runWith_lookup_again`). -/
namespace TokenPatterns

/-- The classes of a normal form are in their fixed order, each of them once. -/
theorem WordClass.normalize_sublist (classes : List WordClass) : (normalize classes).Sublist all :=
  List.filter_sublist

theorem Query.normalize_alike (q : Query) : q.normalize.Alike q :=
  ⟨rfl, rfl, fun _ => WordClass.mem_normalize⟩

namespace Cache

/-! ### The questions held -/

/-- The questions of which a cache keeps the answers, in their normal form. -/
def held (c : Cache) : Finset Query := keySet c.entries

theorem card_held (c : Cache) : c.held.card = c.size := card_keySet c.entries

theorem held_clear (c : Cache) : c.clear.held = ∅ := keySet_empty

theorem mem_held_iff {c : Cache} {q : Query} : q.normalize ∈ c.held ↔ ∃ ids, c.find? q = some ids := by
  rw [held, mem_keySet, Std.ExtTreeMap.mem_iff_isSome_getElem?, Option.isSome_iff_exists]
  rfl

theorem find?_eq_none_iff {c : Cache} {q : Query} : c.find? q = none ↔ q.normalize ∉ c.held := by
  rw [mem_held_iff, Option.eq_none_iff_forall_ne_some, not_exists]

/-- A full cache holds nothing but the question whose answer it is given. -/
theorem held_store (c : Cache) (q : Query) (ids : SynsetSet) :
    (c.store q ids).held =
      if c.size < c.capacity then insert q.normalize c.held else {q.normalize} := by
  by_cases h : c.size < c.capacity
  · rw [store, if_neg (Nat.not_le.mpr h), if_pos h]
    exact keySet_insert ..
  · rw [store, if_pos (Nat.not_lt.mp h), if_neg h, held, keySet_insert]
    show insert _ c.clear.held = _
    rw [held_clear, insert_empty_eq]

theorem capacity_store (c : Cache) (q : Query) (ids : SynsetSet) :
    (c.store q ids).capacity = c.capacity := by
  rw [store]
  split <;> rfl

/-! ### Lookups over a source of answers -/

section Source

variable {σ : Type} (source : Query → σ → SynsetSet × σ) {c : Cache} {q : Query}

theorem runWith_lookup_of_some {ids : SynsetSet} (h : c.find? q = some ids) (s : σ) :
    (c.lookup q).runWith source s = ((ids, c), s) := by
  rw [lookup, h]
  rfl

/-- A question whose answer is not kept is put to the source once, as it was asked. -/
theorem runWith_lookup_of_none (h : c.find? q = none) (s : σ) :
    (c.lookup q).runWith source s =
      (((source q s).1, c.store q (source q s).1), (source q s).2) := by
  rw [lookup, h]
  rfl

/-- The answer that was found is kept. -/
theorem find?_runWith_lookup (c : Cache) (q : Query) (s : σ) :
    ((c.lookup q).runWith source s).1.2.find? q = some ((c.lookup q).runWith source s).1.1 := by
  cases h : c.find? q with
  | some ids => rw [runWith_lookup_of_some source h]; exact h
  | none =>
    rw [runWith_lookup_of_none source h]
    exact find?_store_of_normalize_eq c rfl _

/-- A question that is like the last one is answered from the cache alone. -/
theorem runWith_lookup_again {r : Query} (h : r.Alike q) (s : σ) :
    let found := (c.lookup q).runWith source s
    (found.1.2.lookup r).runWith source found.2 = found := by
  intro found
  have hfind : found.1.2.find? r = some found.1.1 := by
    rw [← find?_runWith_lookup source c q s, find?, find?, Query.normalize_eq_iff.mpr h]
  exact runWith_lookup_of_some source hfind found.2

end Source

/-! ### Calls and their ledger -/

/-- What a cache may be called for. -/
inductive Call where
  | lookup (q : Query)
  | clear

/-- The cache and the source of its answers after a call. -/
def Call.perform {σ : Type} (source : Query → σ → SynsetSet × σ) (p : Cache × σ) :
    Call → Cache × σ
  | lookup q =>
    let found := (p.1.lookup q).runWith source p.2
    (found.1.2, found.2)
  | clear => (p.1.clear, p.2)

/-- The cache and the source of its answers after a sequence of calls. -/
def performAll {σ : Type} (source : Query → σ → SynsetSet × σ) (calls : List Call)
    (p : Cache × σ) : Cache × σ :=
  calls.foldl (Call.perform source) p

/-- Of which questions the answers are held, and which questions were passed on, in order. -/
structure Ledger where
  held : Finset Query := ∅
  passed : List Query := []
deriving DecidableEq

namespace Ledger

/-- A question that is not held is passed on, and held from then on: together with the others as
long as there is room, else in their place. -/
def record (room : Nat) (l : Ledger) : Call → Ledger
  | .lookup q =>
    if q.normalize ∈ l.held then l
    else
      { held := if l.held.card < room then insert q.normalize l.held else {q.normalize}
        passed := l.passed ++ [q] }
  | .clear => {l with held := ∅}

/-- The ledger of a sequence of calls. -/
def ofCalls (room : Nat) (calls : List Call) : Ledger := calls.foldl (record room) {}

end Ledger

/-- A cache and its source are as a ledger says. -/
structure Keeps {σ : Type} (source : Query → σ → SynsetSet × σ) (s : σ) (room : Nat)
    (p : Cache × σ) (l : Ledger) : Prop where
  capacity : p.1.capacity = room
  held : p.1.held = l.held
  bound : l.held.card ≤ room
  passed : p.2 = l.passed.foldl (fun s q => (source q s).2) s

section Keeps

variable {σ : Type} {source : Query → σ → SynsetSet × σ} {s : σ} {room : Nat} {p : Cache × σ}
  {l : Ledger}

theorem Keeps.clear (h : Keeps source s room p l) :
    Keeps source s room (p.1.clear, p.2) {l with held := ∅} where
  capacity := h.capacity
  held := held_clear p.1
  bound := Nat.zero_le room
  passed := h.passed

theorem Keeps.perform (hroom : 0 < room) (h : Keeps source s room p l) (call : Call) :
    Keeps source s room (call.perform source p) (l.record room call) := by
  cases call with
  | clear => exact h.clear
  | lookup q =>
    have hsize : p.1.size = l.held.card := by rw [← card_held, h.held]
    rw [Call.perform, Ledger.record]
    by_cases hq : q.normalize ∈ l.held
    · obtain ⟨ids, hfind⟩ := mem_held_iff.mp (h.held ▸ hq)
      rw [if_pos hq, runWith_lookup_of_some source hfind]
      exact h
    · have hfind : p.1.find? q = none := find?_eq_none_iff.mpr (h.held ▸ hq)
      rw [if_neg hq, runWith_lookup_of_none source hfind]
      refine ⟨(capacity_store ..).trans h.capacity, ?_, ?_, ?_⟩
      · rw [held_store, h.capacity, h.held, hsize]
      · dsimp only
        split
        · next hlt => exact (Finset.card_insert_le ..).trans hlt
        · rw [Finset.card_singleton]
          exact hroom
      · rw [List.foldl_append, ← h.passed]
        rfl

theorem Keeps.performAll (hroom : 0 < room) (h : Keeps source s room p l) (calls : List Call) :
    Keeps source s room (Cache.performAll source calls p) (calls.foldl (Ledger.record room) l) := by
  induction calls generalizing p l with
  | nil => exact h
  | cons call calls ih => exact ih (h.perform hroom call)

theorem keeps_ofCapacity (source : Query → σ → SynsetSet × σ) (s : σ) (n : Nat) :
    Keeps source s (max n 1) (ofCapacity n, s) {} where
  capacity := rfl
  held := keySet_empty
  bound := Nat.zero_le _
  passed := rfl

end Keeps

/-- A cache keeps to its ledger. After any calls it holds the questions that the ledger says, as many
as its size and never more than there is room for, and its source has been asked just the questions
that the ledger lists, in their order. So a question that is held does not reach the source and
changes nothing. Any other question is put to the source once, as it was asked; it is then held with
the others if there is room, and alone if not. Whatever was asked last is held under its normal form,
and asking alike again does not reach the source. -/
theorem keeps_ledger {σ : Type} (source : Query → σ → SynsetSet × σ) (s : σ) (n : Nat)
    (calls : List Call) :
    let room := max n 1
    let p := performAll source calls (ofCapacity n, s)
    let l := Ledger.ofCalls room calls
    (p.1.held = l.held ∧ p.1.size = l.held.card ∧ l.held.card ≤ room ∧
      p.2 = l.passed.foldl (fun s q => (source q s).2) s) ∧
    ∀ q,
      let found := (p.1.lookup q).runWith source p.2
      (q.normalize ∈ l.held → found.1.2 = p.1 ∧ found.2 = p.2) ∧
      (q.normalize ∉ l.held → found.1.1 = (source q p.2).1 ∧ found.2 = (source q p.2).2 ∧
        found.1.2.held =
          if l.held.card < room then insert q.normalize l.held else {q.normalize}) ∧
      q.normalize ∈ found.1.2.held ∧ q.normalize.Alike q ∧
      q.normalize.classes.Sublist WordClass.all ∧
      ∀ r : Query, r.Alike q → (found.1.2.lookup r).runWith source found.2 = found := by
  intro room p l
  have hkeeps : Keeps source s room p l :=
    (keeps_ofCapacity source s n).performAll (Nat.le_max_right n 1) calls
  have hsize : p.1.size = l.held.card := by rw [← card_held, hkeeps.held]
  refine ⟨⟨hkeeps.held, hsize, hkeeps.bound, hkeeps.passed⟩, fun q => ?_⟩
  intro found
  refine ⟨fun hq => ?_, fun hq => ?_, ?_, q.normalize_alike, WordClass.normalize_sublist q.classes,
    fun r hr => runWith_lookup_again source hr p.2⟩
  · obtain ⟨ids, hfind⟩ := mem_held_iff.mp (hkeeps.held ▸ hq)
    have hfound : found = ((ids, p.1), p.2) := runWith_lookup_of_some source hfind p.2
    rw [hfound]
    exact ⟨rfl, rfl⟩
  · have hfind : p.1.find? q = none := find?_eq_none_iff.mpr (hkeeps.held ▸ hq)
    have hfound : found = _ := runWith_lookup_of_none source hfind p.2
    rw [hfound]
    exact ⟨rfl, rfl, by rw [held_store, hkeeps.capacity, hkeeps.held, hsize]⟩
  · exact mem_held_iff.mpr ⟨_, find?_runWith_lookup source p.1 q p.2⟩

/-- A cache with room for one answer over a source that logs its questions. -/
theorem keeps_ledger_log :
    let source : Query → List Query → SynsetSet × List Query := fun q log =>
      (SynsetSet.ofList [q.word], log ++ [q])
    let dog : Query := ⟨"en", "dog", [.verb, .noun]⟩
    let again : Query := ⟨"en", "dog", [.noun, .verb, .noun]⟩
    let cat : Query := ⟨"en", "cat", []⟩
    let calls : List Call := [.lookup dog, .lookup again, .lookup cat]
    let p := performAll source calls (ofCapacity 0, [])
    let found := (p.1.lookup again).runWith source p.2
    (p.1.held = {cat} ∧ p.1.size = 1 ∧ p.2 = [dog, cat]) ∧
      ((p.1.lookup cat).runWith source p.2).2 = [dog, cat] ∧
      found.2 = [dog, cat, again] ∧ found.1.2.held = {⟨"en", "dog", [.noun, .verb]⟩} ∧
      dog.Alike again ∧ (found.1.2.lookup dog).runWith source found.2 = found := by
  intro source dog again cat calls p found
  obtain ⟨⟨hheld, hsize, _, hpassed⟩, hlookup⟩ := keeps_ledger source [] 0 calls
  have hledger : Ledger.ofCalls (max 0 1) calls = ⟨{cat}, [dog, cat]⟩ := by decide +kernel
  rw [hledger] at hheld hsize hpassed hlookup
  have halike : dog.Alike again := ⟨rfl, rfl, fun c => by cases c <;> decide⟩
  obtain ⟨hcat, _⟩ := hlookup cat
  obtain ⟨_, hagain, _, _, _, hdog⟩ := hlookup again
  obtain ⟨_, hlog, hkept⟩ := hagain (by decide +kernel)
  refine ⟨⟨hheld, hsize, hpassed⟩, ?_, ?_, ?_, halike, hdog dog halike⟩
  · exact (hcat (by decide +kernel)).2.trans hpassed
  · rw [show found.2 = _ from hlog, hpassed]
    rfl
  · exact hkept.trans (by decide +kernel)

end Cache
end TokenPatterns
