import Mathlib.Data.Prod.Lex
import Mathlib.Data.String.Basic
import TokenPatterns.Proofs.Greedy.Machine

/-! The moves of the greedy matcher.

The tokens to which a match may go on are in a strict order, so that the one it takes is the first
of those that accept (`step_cases`). -/
namespace TokenPatterns

namespace Node

/-- What nodes are compared by. -/
def rank (n : Node) : Nat ×ₗ String := toLex (n.priority.rank, n.display)

theorem before_iff {a b : Node} : a.before b = true ↔ b.rank < a.rank := by
  rw [rank, rank, Prod.Lex.toLex_lt_toLex]
  simp only [before, Bool.or_eq_true, Bool.and_eq_true, decide_eq_true_eq, beq_iff_eq]

end Node

namespace Greedy

variable {nodes : List Node} {marks : List Mark} {items : List (Node × Mark)}

/-! ### The tokens of a pattern -/

section Tokens

variable {lexicon : Lexicon} {language : String} {text : Text} {tokens : List PatternToken}
  {t : PatternToken} {k : Nat}

theorem length_prepare : (prepare lexicon language tokens).length = tokens.length :=
  List.length_map _

theorem marks_prepare : (prepare lexicon language tokens).map (·.2) = tokens.map (·.mark) := by
  rw [prepare, List.map_map]
  rfl

theorem markAt_of_getElem? (h : tokens[k]? = some t) :
    markAt (tokens.map (·.mark)) (k + 1) = t.mark := by
  simp only [markAt, List.getElem?_map, h, Option.map_some, Option.getD_some]

theorem nodeAt_prepare (h : tokens[k]? = some t) :
    nodeAt ((prepare lexicon language tokens).map (·.1)) (k + 1) =
      (t.node language).run lexicon := by
  simp only [nodeAt, prepare, List.map_map, List.getElem?_map, h, Option.map_some,
    Option.getD_some, Function.comp_apply]

theorem accepts_prepare (h : tokens[k]? = some t) (index : Nat) :
    accepts lexicon text (prepare lexicon language tokens) (k + 1) index =
      t.accepts lexicon language text index := by
  rw [accepts, nodeAt_prepare h, PatternToken.accepts]

end Tokens

/-! ### Where a match may go on -/

theorem mem_candidates {marks : List Mark} {k j : Nat} :
    j ∈ candidates marks ⟨k, 0⟩ ↔ j ≤ marks.length ∧ Follows marks k j := by
  simp only [candidates, List.mem_filter, List.mem_range, Nat.lt_succ_iff, decide_eq_true_eq]

theorem mem_candidates_passed {marks : List Mark} {k h j : Nat} :
    j ∈ candidates marks ⟨k, h + 1⟩ ↔ k < marks.length ∧ j = k + 1 := by
  simp [candidates]

/-- A match goes on to its own token or a later one, and never to the root. -/
theorem Follows.le {marks : List Mark} {k j : Nat} (h : Follows marks k j) : k ≤ j ∧ 1 ≤ j := by
  unfold Follows at h
  omega

theorem candidates_pairwise (marks : List Mark) (k : Nat) :
    (candidates marks ⟨k, 0⟩).Pairwise (· < ·) :=
  List.Pairwise.filter _ List.pairwise_lt_range

theorem mem_tried {p : Place} {j : Nat} :
    j ∈ tried items p ↔ j ∈ candidates (items.map (·.2)) p :=
  List.mem_insertionSort _

/-! ### The order in which tokens are tried -/

theorem ahead_iff {i j : Nat} : Ahead nodes i j ↔
    (nodeAt nodes j).rank < (nodeAt nodes i).rank ∨
      (nodeAt nodes j).rank = (nodeAt nodes i).rank ∧ i ≤ j := by
  unfold Ahead
  rw [Node.rank, Node.rank, Prod.Lex.toLex_lt_toLex, toLex_inj, Prod.mk.injEq]
  constructor
  · intro hahead
    rcases hahead with h | ⟨h, h' | ⟨h', hij⟩⟩
    · exact .inl (.inl h)
    · exact .inl (.inr ⟨h.symm, h'⟩)
    · exact .inr ⟨⟨h.symm, h'.symm⟩, hij⟩
  · intro hrank
    rcases hrank with (h | ⟨h, h'⟩) | ⟨⟨h, h'⟩, hij⟩
    · exact .inl h
    · exact .inr ⟨h.symm, .inl h'⟩
    · exact .inr ⟨h.symm, .inr ⟨h'.symm, hij⟩⟩

instance : Std.Total (Ahead nodes) := ⟨fun i j => by
  rw [ahead_iff, ahead_iff]
  rcases lt_trichotomy (nodeAt nodes i).rank (nodeAt nodes j).rank with h | h | h
  · exact .inr (.inl h)
  · rcases Nat.le_total i j with hij | hij
    · exact .inl (.inr ⟨h.symm, hij⟩)
    · exact .inr (.inr ⟨h, hij⟩)
  · exact .inl (.inl h)⟩

instance : IsTrans Nat (Ahead nodes) := ⟨fun i j k hij hjk => by
  rw [ahead_iff] at *
  rcases hij with hij | ⟨hij, hle⟩ <;> rcases hjk with hjk | ⟨hjk, hle'⟩
  · exact .inl (lt_trans hjk hij)
  · exact .inl (hjk ▸ hij)
  · exact .inl (hij ▸ hjk)
  · exact .inr ⟨hjk.trans hij, Nat.le_trans hle hle'⟩⟩

instance : Std.Antisymm (Ahead nodes) := ⟨fun i j hij hji => by
  rw [ahead_iff] at *
  rcases hij with hij | ⟨hij, hle⟩ <;> rcases hji with hji | ⟨hji, hle'⟩
  · exact absurd hji (lt_asymm hij)
  · exact absurd hij (hji ▸ lt_irrefl _)
  · exact absurd hji (hij ▸ lt_irrefl _)
  · exact Nat.le_antisymm hle hle'⟩

theorem ahead_refl (i : Nat) : Ahead nodes i i :=
  ahead_iff.mpr (.inr ⟨rfl, Nat.le_refl i⟩)

/-- No accepting token is ahead of the first one that is tried and accepts. -/
theorem ahead_of_find?_tried {accepts : Nat → Bool} {p : Place} {j : Nat}
    (h : (tried items p).find? accepts = some j) :
    ∀ i ∈ candidates (items.map (·.2)) p, accepts i = true → Ahead (items.map (·.1)) j i := by
  intro i hi haccepts
  have hsorted : (tried items p).Pairwise (Ahead (items.map (·.1))) :=
    List.pairwise_insertionSort _ _
  obtain ⟨_, before, behind, htried, hbefore⟩ := List.find?_eq_some_iff_append.mp h
  rw [← mem_tried, htried] at hi
  rw [htried, List.pairwise_append, List.pairwise_cons] at hsorted
  rcases List.mem_append.mp hi with hi | hi
  · exact absurd haccepts (by simpa using hbefore i hi)
  · rcases List.mem_cons.mp hi with rfl | hi
    · exact ahead_refl i
    · exact hsorted.2.1.1 i hi

theorem find?_tried_iff {accepts : Nat → Bool} {p : Place} {j : Nat} :
    (tried items p).find? accepts = some j ↔
      j ∈ candidates (items.map (·.2)) p ∧ accepts j = true ∧
        ∀ i ∈ candidates (items.map (·.2)) p, accepts i = true → Ahead (items.map (·.1)) j i := by
  constructor
  · intro h
    exact ⟨mem_tried.mp (List.mem_of_find?_eq_some h), List.find?_some h, ahead_of_find?_tried h⟩
  · intro hfirst
    obtain ⟨hj, haccepts, hahead⟩ := hfirst
    cases hfind : (tried items p).find? accepts with
    | none => exact absurd haccepts (by simpa using List.find?_eq_none.mp hfind j (mem_tried.mpr hj))
    | some i =>
      have hi := mem_tried.mp (List.mem_of_find?_eq_some hfind)
      have hij := ahead_of_find?_tried hfind j hj haccepts
      rw [Std.Antisymm.antisymm i j hij (hahead i hi (List.find?_some hfind))]

theorem find?_tried_eq_none {accepts : Nat → Bool} {p : Place} :
    (tried items p).find? accepts = none ↔
      ∀ j ∈ candidates (items.map (·.2)) p, accepts j = false := by
  simp only [List.find?_eq_none, mem_tried, Bool.not_eq_true]

/-! ### Steps -/

/-- The places of the patterns with some number of tokens: tokens of the text are passed over only
between a token and the next one, and at most two of them. -/
def Place.Within (n : Nat) (p : Place) : Prop :=
  p.token ≤ n ∧ (p.passed = 0 ∨ 1 ≤ p.token ∧ p.token < n ∧ p.passed ≤ 2)

theorem start_within (n : Nat) : start.Within n := ⟨Nat.zero_le n, .inl rfl⟩

/-- A step to a token: the token accepts, and no other accepting one is ahead of it. -/
theorem step_eq_take {accepts : Nat → Bool} {p : Place} {j : Nat}
    (hj : j ∈ candidates (items.map (·.2)) p) (haccepts : accepts j = true)
    (hahead : ∀ i ∈ candidates (items.map (·.2)) p, accepts i = true →
      Ahead (items.map (·.1)) j i) :
    step items accepts p = some ⟨j, 0⟩ := by
  rw [step, find?_tried_iff.mpr ⟨hj, haccepts, hahead⟩]

/-- A step where no token accepts. -/
theorem step_eq_pass {accepts : Nat → Bool} {p : Place}
    (h : ∀ j ∈ candidates (items.map (·.2)) p, accepts j = false) :
    step items accepts p =
      if 1 ≤ p.token ∧ p.token < items.length ∧ p.passed < 2 then some ⟨p.token, p.passed + 1⟩
      else none := by
  rw [step, find?_tried_eq_none.mpr h]

/-- What a step can do. -/
theorem step_cases {accepts : Nat → Bool} {p q : Place} (h : step items accepts p = some q) :
    (∃ j, q = ⟨j, 0⟩ ∧ j ∈ candidates (items.map (·.2)) p ∧ accepts j = true ∧
      ∀ i ∈ candidates (items.map (·.2)) p, accepts i = true → Ahead (items.map (·.1)) j i) ∨
    (q = ⟨p.token, p.passed + 1⟩ ∧ (1 ≤ p.token ∧ p.token < items.length ∧ p.passed < 2) ∧
      ∀ j ∈ candidates (items.map (·.2)) p, accepts j = false) := by
  rw [step] at h
  cases hfind : (tried items p).find? accepts with
  | some j =>
    rw [hfind] at h
    obtain rfl := Option.some.inj h
    exact .inl ⟨j, rfl, find?_tried_iff.mp hfind⟩
  | none =>
    rw [hfind] at h
    by_cases hpass : 1 ≤ p.token ∧ p.token < items.length ∧ p.passed < 2
    · rw [if_pos hpass] at h
      obtain rfl := Option.some.inj h
      exact .inr ⟨rfl, hpass, find?_tried_eq_none.mp hfind⟩
    · rw [if_neg hpass] at h
      exact absurd h (Option.some_ne_none q).symm

/-- A match moves on to later places only, and never past the end of the pattern. -/
theorem candidates_bounds {p : Place} {j : Nat} (h : j ∈ candidates marks p) :
    p.token ≤ j ∧ 1 ≤ j ∧ j ≤ marks.length := by
  rcases p with ⟨k, _ | h'⟩
  · obtain ⟨hj, hf⟩ := mem_candidates.mp h
    exact ⟨hf.le.1, hf.le.2, hj⟩
  · obtain ⟨hk, rfl⟩ := mem_candidates_passed.mp h
    exact ⟨Nat.le_succ k, Nat.le_add_left 1 k, hk⟩

theorem step_within {accepts : Nat → Bool} {p q : Place} (h : step items accepts p = some q) :
    q.Within items.length ∧ 1 ≤ q.token ∧ p.token ≤ q.token := by
  rcases step_cases h with ⟨j, rfl, hj, _, _⟩ | ⟨rfl, hpass, _⟩
  · obtain ⟨hle, hpos, hj⟩ := candidates_bounds hj
    exact ⟨⟨by simpa using hj, .inl rfl⟩, hpos, hle⟩
  · exact ⟨⟨Nat.le_of_lt hpass.2.1, .inr ⟨hpass.1, hpass.2.1, hpass.2.2⟩⟩, hpass.1, Nat.le_refl _⟩

/-! ### Runs -/

theorem run_of_step {accepts : Nat → Nat → Bool} {p q : Place} {index remaining : Nat}
    (h : step items (accepts · index) p = some q) :
    run items accepts p index (remaining + 1) =
      ⟨q, index⟩ :: run items accepts q (index + 1) remaining := by
  rw [run, h]

theorem run_of_stuck {accepts : Nat → Nat → Bool} {p : Place} {index remaining : Nat}
    (h : step items (accepts · index) p = none) :
    run items accepts p index remaining = [] := by
  cases remaining with
  | zero => rfl
  | succ remaining => rw [run, h]

/-- Every place that a run comes to is a place of the pattern behind one of its tokens. -/
theorem run_within {accepts : Nat → Nat → Bool} {p : Place} {index remaining : Nat} :
    ∀ m ∈ run items accepts p index remaining, m.place.Within items.length ∧ 1 ≤ m.place.token := by
  induction remaining generalizing p index with
  | zero => exact fun m hm => absurd hm List.not_mem_nil
  | succ remaining ih =>
    intro m hm
    cases hstep : step items (accepts · index) p with
    | none =>
      rw [run_of_stuck hstep] at hm
      exact absurd hm List.not_mem_nil
    | some q =>
      rw [run_of_step hstep] at hm
      rcases List.mem_cons.mp hm with rfl | hm
      · exact ⟨(step_within hstep).1, (step_within hstep).2.1⟩
      · exact ih m hm

/-- A run takes or passes over one token of the text after another. -/
theorem index_run {accepts : Nat → Nat → Bool} (p : Place) (index remaining : Nat) :
    (run items accepts p index remaining).map (·.index) =
      List.range' index (run items accepts p index remaining).length := by
  induction remaining generalizing p index with
  | zero => rfl
  | succ remaining ih =>
    cases hstep : step items (accepts · index) p with
    | none =>
      rw [run_of_stuck hstep]
      rfl
    | some q =>
      rw [run_of_step hstep, List.map_cons, ih, List.length_cons, List.range'_succ]

theorem length_run_le {accepts : Nat → Nat → Bool} (p : Place) (index remaining : Nat) :
    (run items accepts p index remaining).length ≤ remaining := by
  induction remaining generalizing p index with
  | zero => exact Nat.le_refl 0
  | succ remaining ih =>
    cases hstep : step items (accepts · index) p with
    | none =>
      rw [run_of_stuck hstep]
      exact Nat.zero_le _
    | some q =>
      rw [run_of_step hstep]
      exact Nat.succ_le_succ (ih q (index + 1))

theorem index_mem_run {accepts : Nat → Nat → Bool} {p : Place} {index remaining : Nat} {m : Move}
    (hm : m ∈ run items accepts p index remaining) :
    index ≤ m.index ∧ m.index < index + (run items accepts p index remaining).length := by
  have hmem : m.index ∈ (run items accepts p index remaining).map (·.index) :=
    List.mem_map_of_mem hm
  rw [index_run] at hmem
  simpa using List.mem_range'_1.mp hmem

/-- A token of the pattern takes only what it accepts. -/
theorem accepts_of_mem_run {accepts : Nat → Nat → Bool} {p : Place} {index remaining : Nat} {m : Move}
    (hm : m ∈ run items accepts p index remaining) (hpassed : m.place.passed = 0) :
    accepts m.place.token m.index = true := by
  induction remaining generalizing p index with
  | zero => exact absurd hm List.not_mem_nil
  | succ remaining ih =>
    cases hstep : step items (accepts · index) p with
    | none =>
      rw [run_of_stuck hstep] at hm
      exact absurd hm List.not_mem_nil
    | some q =>
      rw [run_of_step hstep] at hm
      rcases List.mem_cons.mp hm with rfl | hm
      · rcases step_cases hstep with ⟨j, rfl, _, haccepts, _⟩ | ⟨rfl, _, _⟩
        · exact haccepts
        · exact absurd hpassed (Nat.succ_ne_zero _)
      · exact ih hm

/-! ### Where moves end -/

theorem lastPlace_append (p : Place) (moves more : List Move) :
    lastPlace p (moves ++ more) = lastPlace (lastPlace p moves) more := by
  simp only [lastPlace, List.getLast?_append]
  cases more.getLast? <;> rfl

theorem lastPlace_cons (p : Place) (m : Move) (moves : List Move) :
    lastPlace p (m :: moves) = lastPlace m.place moves :=
  lastPlace_append p [m] moves

theorem lastPlace_of_ne_nil {moves : List Move} (hne : moves ≠ []) (p q : Place) :
    lastPlace p moves = lastPlace q moves := by
  rw [lastPlace, lastPlace]
  cases hm : moves.getLast? with
  | none => exact absurd (List.getLast?_eq_none_iff.mp hm) hne
  | some m => rfl

theorem lastPlace_token_lt {p : Place} {moves : List Move} {n : Nat} (hp : p.token < n)
    (h : ∀ m ∈ moves, m.place.token < n) : (lastPlace p moves).token < n := by
  rw [lastPlace]
  cases hm : moves.getLast? with
  | none => exact hp
  | some m => exact h m (List.mem_of_getLast? hm)

/-! ### What a run gives -/

theorem outcome_of_isEnd {text : Text} {moves : List Move}
    (h : IsEnd (items.map (·.2)) (lastPlace start moves)) :
    outcome items text moves =
      { matchCount := moves.countP (·.place.passed = 0)
        window := moves.length
        captures := captured (items.map (·.1)) text moves } := by
  rw [outcome, if_pos h]

theorem outcome_of_not_isEnd {text : Text} {moves : List Move}
    (h : ¬IsEnd (items.map (·.2)) (lastPlace start moves)) :
    outcome items text moves = .none := by
  rw [outcome, if_neg h]

/-- A match does not end where it starts. -/
theorem not_isEnd_start (marks : List Mark) : ¬IsEnd marks start := fun h => by
  obtain ⟨i, hi, hpos, _⟩ := h.2.1
  exact absurd (Nat.le_trans hpos hi) (Nat.not_succ_le_zero 0)

/-- Moves are a match if a match may end behind them. -/
theorem isMatch_outcome {text : Text} {moves : List Move} :
    (outcome items text moves).isMatch = true ↔
      IsEnd (items.map (·.2)) (lastPlace start moves) := by
  by_cases h : IsEnd (items.map (·.2)) (lastPlace start moves)
  · have hpos : 0 < moves.length :=
      List.length_pos_iff.mpr fun hnil => not_isEnd_start _ (hnil ▸ h)
    rw [outcome_of_isEnd h, PatternMatch.isMatch, decide_eq_true hpos, Bool.or_true]
    exact ⟨fun _ => h, fun _ => rfl⟩
  · rw [outcome_of_not_isEnd h]
    exact ⟨fun hnone => absurd hnone Bool.false_ne_true, fun hend => absurd hend h⟩

end Greedy
end TokenPatterns
