import TokenPatterns.Proofs.Greedy.Moves

/-! Runs before a mandatory token.

Where the next token is mandatory and the last one may not be repeated, a match has no choice: it
takes the next token at the first position that this accepts (`runTo_gap`), and gets no further
where none of the next three is accepted (`token_of_gap`). What a run does up to some token is a
stretch of moves, and stretches are put together end to end (`Stretch.append`). -/
namespace TokenPatterns

namespace Greedy

/-! ### Runs to the end of a range -/

section Runs

variable {lexicon : Lexicon} {language : String} {tokens : List PatternToken} {text : Text}
  {stop i : Nat} {p q : Place}

/-- The moves of a match from a place, at a position, to the end of its range. -/
def runTo (lexicon : Lexicon) (language : String) (tokens : List PatternToken) (text : Text)
    (stop : Nat) (p : Place) (i : Nat) : List Move :=
  run (prepare lexicon language tokens) (accepts lexicon text (prepare lexicon language tokens)) p i
    (stop - i)

/-- The step of a match from a place at a position. -/
def stepAt (lexicon : Lexicon) (language : String) (tokens : List PatternToken) (text : Text)
    (i : Nat) (p : Place) : Option Place :=
  step (prepare lexicon language tokens)
    (accepts lexicon text (prepare lexicon language tokens) · i) p

theorem runTo_of_step (hi : i < stop) (h : stepAt lexicon language tokens text i p = some q) :
    runTo lexicon language tokens text stop p i =
      ⟨q, i⟩ :: runTo lexicon language tokens text stop q (i + 1) := by
  rw [runTo, show stop - i = stop - (i + 1) + 1 by omega, run_of_step h]
  rfl

theorem runTo_of_stuck (h : stepAt lexicon language tokens text i p = none) :
    runTo lexicon language tokens text stop p i = [] :=
  run_of_stuck h

theorem runTo_of_le (h : stop ≤ i) : runTo lexicon language tokens text stop p i = [] := by
  rw [runTo, Nat.sub_eq_zero_of_le h]
  rfl

end Runs

/-! ### Before a mandatory token -/

/-- Between a token that may not be repeated and a mandatory one nothing else can be taken. -/
theorem mem_candidates_of_mandatory {marks : List Mark} {k h j : Nat} (hlt : k < marks.length)
    (hmark : markAt marks k ≠ .repeated) (hnext : markAt marks (k + 1) = .once) :
    j ∈ candidates marks ⟨k, h⟩ ↔ j = k + 1 := by
  cases h with
  | zero =>
    rw [mem_candidates]
    constructor
    · intro hj
      rcases hj.2 with ⟨_, hrepeated, _⟩ | rfl | ⟨_, hfar, hbetween⟩
      · exact absurd hrepeated hmark
      · rfl
      · exact absurd hnext (hbetween (k + 1) hfar (Nat.lt_succ_self k))
    · intro hj
      subst hj
      exact ⟨hlt, .inr (.inl rfl)⟩
  | succ h =>
    rw [mem_candidates_passed]
    exact and_iff_right hlt

/-- A match takes the only token to which it may go on where that accepts. -/
theorem step_of_sole {items : List (Node × Mark)} {accepts : Nat → Bool} {p : Place} {j : Nat}
    (hsole : ∀ i, i ∈ candidates (items.map (·.2)) p ↔ i = j) (haccepts : accepts j = true) :
    step items accepts p = some ⟨j, 0⟩ := by
  refine step_eq_take ((hsole j).mpr rfl) haccepts fun i hi _ => ?_
  rw [(hsole i).mp hi]
  exact ahead_refl j

section Mandatory

variable {lexicon : Lexicon} {language : String} {tokens : List PatternToken} {text : Text}
  {stop k : Nat} {t : PatternToken} (htoken : tokens[k]? = some t) (ht : t.mark = .once)
  (hmark : markAt (tokens.map (·.mark)) k ≠ .repeated)
include htoken ht hmark

theorem mem_candidates_next {h j : Nat} :
    j ∈ candidates ((prepare lexicon language tokens).map (·.2)) ⟨k, h⟩ ↔ j = k + 1 := by
  rw [marks_prepare]
  refine mem_candidates_of_mandatory ?_ hmark ((markAt_of_getElem? htoken).trans ht)
  rw [List.length_map]
  exact (List.getElem?_eq_some_iff.mp htoken).1

theorem stepAt_next {h i : Nat} (haccepts : t.accepts lexicon language text i = true) :
    stepAt lexicon language tokens text i ⟨k, h⟩ = some ⟨k + 1, 0⟩ := by
  refine step_of_sole (fun _ => mem_candidates_next htoken ht hmark) ?_
  rw [accepts_prepare htoken]
  exact haccepts

theorem stepAt_gap {h i : Nat} (haccepts : t.accepts lexicon language text i = false) :
    stepAt lexicon language tokens text i ⟨k, h⟩ =
      if 1 ≤ k ∧ h < 2 then some ⟨k, h + 1⟩ else none := by
  have hlt : k < tokens.length := (List.getElem?_eq_some_iff.mp htoken).1
  rw [stepAt, step_eq_pass, length_prepare]
  · simp only [hlt, true_and]
  · intro j hj
    rw [(mem_candidates_next htoken ht hmark).mp hj, accepts_prepare htoken]
    exact haccepts

/-- A match comes to the next mandatory token at the next position that it accepts. -/
theorem runTo_gap (hpos : 1 ≤ k) {h d i : Nat} (hd : h + d ≤ 2) (hstop : i + d < stop)
    (haccepts : t.accepts lexicon language text (i + d) = true)
    (hnone : ∀ x, i ≤ x → x < i + d → t.accepts lexicon language text x = false) :
    ∃ passes, runTo lexicon language tokens text stop ⟨k, h⟩ i =
        passes ++ ⟨⟨k + 1, 0⟩, i + d⟩ ::
          runTo lexicon language tokens text stop ⟨k + 1, 0⟩ (i + d + 1) ∧
      passes.length = d ∧ (∀ m ∈ passes, m.place.token = k ∧ m.place.passed ≠ 0) ∧
        ∀ m ∈ passes, i ≤ m.index ∧ m.index < i + d := by
  induction d generalizing h i with
  | zero =>
    refine ⟨[], ?_, rfl, fun m hm => absurd hm List.not_mem_nil,
      fun m hm => absurd hm List.not_mem_nil⟩
    exact runTo_of_step hstop (stepAt_next htoken ht hmark haccepts)
  | succ d ih =>
    have hstep : stepAt lexicon language tokens text i ⟨k, h⟩ = some ⟨k, h + 1⟩ := by
      rw [stepAt_gap htoken ht hmark (hnone i (Nat.le_refl i) (by omega)),
        if_pos ⟨hpos, by omega⟩]
    rw [show i + (d + 1) = i + 1 + d by omega] at *
    obtain ⟨passes, hrun, hlength, hpasses, hrange⟩ := ih (h := h + 1) (i := i + 1) (by omega)
      hstop haccepts fun x hx hlt => hnone x (by omega) hlt
    refine ⟨⟨⟨k, h + 1⟩, i⟩ :: passes, ?_, by rw [List.length_cons, hlength], ?_, ?_⟩
    · rw [runTo_of_step (by omega) hstep, hrun]
      rfl
    · intro m hm
      rcases List.mem_cons.mp hm with rfl | hm
      · exact ⟨rfl, Nat.succ_ne_zero h⟩
      · exact hpasses m hm
    · intro m hm
      rcases List.mem_cons.mp hm with rfl | hm
      · exact ⟨Nat.le_refl i, by show i < i + 1 + d; omega⟩
      · have hm := hrange m hm
        omega

/-- A match does not get past a mandatory token that accepts none of the next positions. -/
theorem token_of_gap {h i : Nat} (hh : h ≤ 2)
    (hnone : ∀ x, i ≤ x → x + h ≤ i + 2 → x < stop → t.accepts lexicon language text x = false) :
    ∀ m ∈ runTo lexicon language tokens text stop ⟨k, h⟩ i, m.place.token = k := by
  induction hr : stop - i generalizing h i with
  | zero =>
    rw [runTo_of_le (by omega)]
    exact fun m hm => absurd hm List.not_mem_nil
  | succ r ih =>
    have hstep := stepAt_gap htoken ht hmark (h := h) (hnone i (Nat.le_refl i) (by omega) (by omega))
    by_cases hpass : 1 ≤ k ∧ h < 2
    · rw [if_pos hpass] at hstep
      rw [runTo_of_step (by omega) hstep]
      intro m hm
      rcases List.mem_cons.mp hm with rfl | hm
      · rfl
      · exact ih (by omega) (fun x hx hnear hlt => hnone x (by omega) (by omega) hlt) (by omega) m hm
    · rw [if_neg hpass] at hstep
      rw [runTo_of_stuck hstep]
      exact fun m hm => absurd hm List.not_mem_nil

end Mandatory

/-! ### Behind the last token -/

/-- There is nowhere to go on behind the last token of a pattern if it may not be repeated. -/
theorem run_of_length {items : List (Node × Mark)}
    (hmark : markAt (items.map (·.2)) items.length ≠ .repeated) (accepts : Nat → Nat → Bool)
    (i remaining : Nat) : run items accepts ⟨items.length, 0⟩ i remaining = [] := by
  refine run_of_stuck ?_
  rw [step_eq_pass, if_neg fun h => Nat.lt_irrefl _ h.2.1]
  intro j hj
  rw [mem_candidates, List.length_map] at hj
  obtain ⟨hle, ⟨_, hrepeated, _⟩ | rfl | ⟨_, hfar, _⟩⟩ := hj
  · exact absurd hrepeated hmark
  · exact absurd hle (Nat.not_succ_le_self _)
  · omega

/-- A match may end behind the last token of a pattern if that is mandatory. -/
theorem isEnd_length {marks : List Mark} (hpos : 1 ≤ marks.length)
    (hmark : markAt marks marks.length = .once) : IsEnd marks ⟨marks.length, 0⟩ :=
  ⟨rfl, ⟨marks.length, Nat.le_refl _, hpos, hmark⟩,
    fun _ hi hlt => absurd hlt (Nat.not_lt_of_le hi)⟩

/-! ### Stretches of a run -/

/-- Moves that lead from one token to another one some tokens further on, each of the tokens
between taking one token of the text. -/
structure Stretch (k n i j : Nat) (moves : List Move) : Prop where
  le : i ≤ j
  length : moves.length = j - i
  count : moves.countP (·.place.passed = 0) = n
  tokens : ∀ m ∈ moves, k ≤ m.place.token ∧ m.place.token ≤ k + n
  takes : ∀ m ∈ moves, m.place.passed = 0 → k < m.place.token
  range : ∀ m ∈ moves, i ≤ m.index ∧ m.index < j
  last : lastPlace ⟨k, 0⟩ moves = ⟨k + n, 0⟩

theorem Stretch.nil (k i : Nat) : Stretch k 0 i i [] where
  le := Nat.le_refl i
  length := (Nat.sub_self i).symm
  count := rfl
  tokens := fun _ hm => absurd hm List.not_mem_nil
  takes := fun _ hm => absurd hm List.not_mem_nil
  range := fun _ hm => absurd hm List.not_mem_nil
  last := rfl

theorem Stretch.append {k n n' i j l : Nat} {moves more : List Move} (h : Stretch k n i j moves)
    (h' : Stretch (k + n) n' j l more) : Stretch k (n + n') i l (moves ++ more) where
  le := Nat.le_trans h.le h'.le
  length := by
    have hle := h.le
    have hle' := h'.le
    rw [List.length_append, h.length, h'.length]
    omega
  count := by rw [List.countP_append, h.count, h'.count]
  tokens := by
    intro m hm
    rcases List.mem_append.mp hm with hm | hm
    · have htokens := h.tokens m hm
      omega
    · have htokens := h'.tokens m hm
      omega
  takes := by
    intro m hm hpassed
    rcases List.mem_append.mp hm with hm | hm
    · exact h.takes m hm hpassed
    · exact Nat.lt_of_le_of_lt (Nat.le_add_right k n) (h'.takes m hm hpassed)
  range := by
    intro m hm
    have hle := h.le
    have hle' := h'.le
    rcases List.mem_append.mp hm with hm | hm
    · have hrange := h.range m hm
      omega
    · have hrange := h'.range m hm
      omega
  last := by rw [lastPlace_append, h.last, h'.last, Nat.add_assoc]

/-- One take behind some passed tokens. -/
theorem Stretch.of_passes {k i d : Nat} {passes : List Move} (hlength : passes.length = d)
    (hpasses : ∀ m ∈ passes, m.place.token = k ∧ m.place.passed ≠ 0)
    (hrange : ∀ m ∈ passes, i ≤ m.index ∧ m.index < i + d) :
    Stretch k 1 i (i + d + 1) (passes ++ [⟨⟨k + 1, 0⟩, i + d⟩]) where
  le := by omega
  length := by
    rw [List.length_append, hlength, List.length_singleton]
    omega
  count := by
    have hnone : passes.countP (·.place.passed = 0) = 0 :=
      List.countP_eq_zero.mpr fun _ hm => by simpa using (hpasses _ hm).2
    rw [List.countP_append, hnone]
    rfl
  tokens := by
    intro m hm
    rcases List.mem_append.mp hm with hm | hm
    · rw [(hpasses m hm).1]
      exact ⟨Nat.le_refl k, Nat.le_succ k⟩
    · rw [List.mem_singleton.mp hm]
      exact ⟨Nat.le_succ k, Nat.le_refl _⟩
  takes := by
    intro m hm hpassed
    rcases List.mem_append.mp hm with hm | hm
    · exact absurd hpassed (hpasses m hm).2
    · rw [List.mem_singleton.mp hm]
      exact Nat.lt_succ_self k
  range := by
    intro m hm
    rcases List.mem_append.mp hm with hm | hm
    · exact ⟨(hrange m hm).1, Nat.lt_succ_of_lt (hrange m hm).2⟩
    · rw [List.mem_singleton.mp hm]
      exact ⟨Nat.le_add_right i d, Nat.lt_succ_self _⟩
  last := by rw [lastPlace_append]; rfl

theorem Stretch.take (k i : Nat) : Stretch k 1 i (i + 1) [⟨⟨k + 1, 0⟩, i⟩] :=
  Stretch.of_passes List.length_nil (fun _ hm => absurd hm List.not_mem_nil)
    fun _ hm => absurd hm List.not_mem_nil

end Greedy
end TokenPatterns
