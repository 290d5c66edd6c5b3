import TokenPatterns.Proofs.Greedy.Mandatory
import TokenPatterns.Proofs.Greedy.Simulation

/-! An optional token added to a pattern.

A match of the longer pattern moves as a match of the pattern itself, until it takes the new token
(`run_append`). From there it takes nothing else, so that it ends well (`lastPlace_of_mem_run`).
Where it does not take the new token before the match of the pattern would stop, it goes on from
there: it may take the new token within the next three tokens of the text, or lose the match by
passing over what it does not accept. -/
namespace TokenPatterns

namespace Greedy

variable {items : List (Node × Mark)} {last : Node × Mark}

/-! ### Places of the longer pattern -/

theorem nodeAt_append_of_le {nodes more : List Node} {k : Nat} (h : k ≤ nodes.length) :
    nodeAt (nodes ++ more) k = nodeAt nodes k := by
  cases k with
  | zero => rfl
  | succ k => simp only [nodeAt, List.getElem?_append_left (show k < nodes.length by omega)]

theorem ahead_append {nodes more : List Node} {i j : Nat} (hi : i ≤ nodes.length)
    (hj : j ≤ nodes.length) : Ahead (nodes ++ more) i j ↔ Ahead nodes i j := by
  rw [ahead_iff, ahead_iff, nodeAt_append_of_le hi, nodeAt_append_of_le hj]

/-- From a place of a pattern, a match of the longer one may go on to the same tokens and to none
but the new one besides. -/
theorem mem_candidates_append {marks : List Mark} {mark : Mark} {p : Place} {j : Nat}
    (hp : p.Within marks.length) (hj : j ≤ marks.length) :
    j ∈ candidates (marks ++ [mark]) p ↔ j ∈ candidates marks p := by
  rcases p with ⟨k, _ | h⟩
  · rw [mem_candidates, mem_candidates, follows_append_of_le hj, List.length_append]
    exact and_congr_left fun _ => ⟨fun _ => hj, fun _ => Nat.le_add_right_of_le hj⟩
  · have hk : k < marks.length := (hp.2.resolve_left (Nat.succ_ne_zero h)).2.1
    rw [mem_candidates_passed, mem_candidates_passed, List.length_append]
    exact and_congr_left fun _ => ⟨fun _ => hk, fun _ => Nat.lt_add_right _ hk⟩

/-- A match that may end at a place of a pattern may end at any later one of the longer pattern. -/
theorem IsEnd.append {marks : List Mark} {mark : Mark} {p : Place} (hend : IsEnd marks p)
    (hp : p.token ≤ marks.length) (hmark : mark ≠ .once) {j : Nat} (hj : p.token ≤ j) :
    IsEnd (marks ++ [mark]) ⟨j, 0⟩ := by
  obtain ⟨_, ⟨i, hi, hpos, honce⟩, hafter⟩ := hend
  refine ⟨rfl, ⟨i, Nat.le_trans hi hj, hpos, ?_⟩, fun x hx hlt => ?_⟩
  · rw [markAt_append_of_le (Nat.le_trans hi hp)]
    exact honce
  · rw [List.length_append, List.length_singleton] at hx
    rcases Nat.lt_or_ge marks.length x with hnew | hold
    · obtain rfl : x = marks.length + 1 := Nat.le_antisymm hx hnew
      rw [markAt_length_add_one]
      exact hmark
    · rw [markAt_append_of_le hold]
      exact hafter x hold (Nat.lt_of_le_of_lt hj hlt)

/-! ### The end of a pattern -/

/-- There is nowhere to go from the last token but to that token again. -/
theorem step_last {accepts : Nat → Bool} {q : Place}
    (h : step items accepts ⟨items.length, 0⟩ = some q) : q = ⟨items.length, 0⟩ := by
  rcases step_cases h with ⟨j, rfl, hj, _, _⟩ | ⟨_, hpass, _⟩
  · obtain ⟨hle, _, hlength⟩ := candidates_bounds hj
    rw [List.length_map] at hlength
    rw [Nat.le_antisymm hlength hle]
  · exact absurd hpass.2.1 (Nat.lt_irrefl _)

theorem lastPlace_run_last {accepts : Nat → Nat → Bool} (i remaining : Nat) :
    lastPlace ⟨items.length, 0⟩ (run items accepts ⟨items.length, 0⟩ i remaining) =
      ⟨items.length, 0⟩ := by
  induction remaining generalizing i with
  | zero => rfl
  | succ remaining ih =>
    cases hstep : step items (accepts · i) ⟨items.length, 0⟩ with
    | none => rw [run_of_stuck hstep]; rfl
    | some q =>
      obtain rfl := step_last hstep
      rw [run_of_step hstep, lastPlace_cons]
      exact ih (i + 1)

/-- A match that takes the last token ends there. -/
theorem lastPlace_of_mem_run {accepts : Nat → Nat → Bool} {p : Place} {i remaining : Nat} {m : Move}
    (hm : m ∈ run items accepts p i remaining) (hplace : m.place = ⟨items.length, 0⟩) :
    lastPlace p (run items accepts p i remaining) = ⟨items.length, 0⟩ := by
  induction remaining generalizing p i with
  | zero => exact absurd hm List.not_mem_nil
  | succ remaining ih =>
    cases hstep : step items (accepts · i) p with
    | none =>
      rw [run_of_stuck hstep] at hm
      exact absurd hm List.not_mem_nil
    | some q =>
      rw [run_of_step hstep] at hm ⊢
      rw [lastPlace_cons]
      rcases List.mem_cons.mp hm with rfl | hm
      · obtain rfl : q = ⟨items.length, 0⟩ := hplace
        exact lastPlace_run_last (i + 1) remaining
      · exact ih hm

theorem lastPlace_run_token_le (items : List (Node × Mark)) (accepts : Nat → Nat → Bool)
    (first remaining : Nat) :
    (lastPlace start (run items accepts start first remaining)).token ≤ items.length :=
  Nat.lt_succ_iff.mp (lastPlace_token_lt (Nat.succ_pos _)
    fun m hm => Nat.lt_succ_of_le (run_within m hm).1.1)

theorem step_eq_none {accepts : Nat → Bool} {p : Place} :
    step items accepts p = none ↔
      (∀ j ∈ candidates (items.map (·.2)) p, accepts j = false) ∧
        ¬(1 ≤ p.token ∧ p.token < items.length ∧ p.passed < 2) := by
  rw [← find?_tried_eq_none, step]
  cases (tried items p).find? accepts with
  | some j => simp
  | none => simp

/-- A match that stops in front of the end of its range cannot move on. -/
theorem step_of_length_lt {accepts : Nat → Nat → Bool} {p : Place} {i remaining : Nat}
    (h : (run items accepts p i remaining).length < remaining) :
    step items (accepts · (i + (run items accepts p i remaining).length))
      (lastPlace p (run items accepts p i remaining)) = none := by
  induction remaining generalizing p i with
  | zero => exact absurd h (Nat.not_lt_zero _)
  | succ remaining ih =>
    cases hstep : step items (accepts · i) p with
    | none =>
      rw [run_of_stuck hstep]
      exact hstep
    | some q =>
      rw [run_of_step hstep, List.length_cons] at h
      rw [run_of_step hstep, List.length_cons, lastPlace_cons, Nat.add_comm _ 1, ← Nat.add_assoc]
      exact ih (Nat.lt_of_succ_lt_succ h)

/-! ### Steps and runs of the longer pattern -/

/-- A match of the longer pattern steps where one of the pattern does, or to the new token. -/
theorem step_append (last : Node × Mark) {accepts accepts' : Nat → Bool} {p q : Place}
    (hagree : ∀ j ≤ items.length, accepts' j = accepts j) (hp : p.Within items.length)
    (h : step items accepts p = some q) :
    step (items ++ [last]) accepts' p = some q ∨
      step (items ++ [last]) accepts' p = some ⟨items.length + 1, 0⟩ := by
  have hmarks : (items ++ [last]).map (·.2) = items.map (·.2) ++ [last.2] := List.map_append
  have hnodes : (items ++ [last]).map (·.1) = items.map (·.1) ++ [last.1] := List.map_append
  have hcandidates : ∀ j ∈ candidates ((items ++ [last]).map (·.2)) p,
      j = items.length + 1 ∨ j ≤ items.length ∧ j ∈ candidates (items.map (·.2)) p := by
    intro j hj
    have hle := (candidates_bounds hj).2.2
    rw [List.length_map, List.length_append, List.length_singleton] at hle
    rcases Nat.lt_or_ge items.length j with hnew | hold
    · exact .inl (Nat.le_antisymm hle hnew)
    · rw [hmarks, mem_candidates_append (by rwa [List.length_map]) (by rwa [List.length_map])] at hj
      exact .inr ⟨hold, hj⟩
  have hold : ∀ j ∈ candidates (items.map (·.2)) p,
      j ≤ items.length ∧ j ∈ candidates ((items ++ [last]).map (·.2)) p := by
    intro j hj
    have hle := (candidates_bounds hj).2.2
    refine ⟨by rwa [List.length_map] at hle, ?_⟩
    rw [hmarks]
    exact (mem_candidates_append (by rwa [List.length_map]) hle).mpr hj
  cases hfind : (tried (items ++ [last]) p).find? accepts' with
  | some i =>
    obtain ⟨hi, haccepts', hahead'⟩ := find?_tried_iff.mp hfind
    have hstep : step (items ++ [last]) accepts' p = some ⟨i, 0⟩ := by rw [step, hfind]
    rcases hcandidates i hi with rfl | ⟨hle, hi⟩
    · exact .inr hstep
    · -- the token is tried ahead of all that accept, and the pattern itself tries it so as well
      refine .inl (hstep.trans ?_)
      rw [hagree i hle] at haccepts'
      rcases step_cases h with ⟨j, rfl, hj, haccepts, hahead⟩ | ⟨_, _, hnone⟩
      · have hij := hahead' j (hold j hj).2 ((hagree j (hold j hj).1).trans haccepts)
        rw [hnodes, ahead_append (by rwa [List.length_map])
          (by rw [List.length_map]; exact (hold j hj).1)] at hij
        rw [Std.Antisymm.antisymm i j hij (hahead i hi haccepts')]
      · exact absurd (haccepts'.symm.trans (hnone i hi)) (Bool.false_ne_true ∘ Eq.symm)
  | none =>
    have hnone' := find?_tried_eq_none.mp hfind
    rcases step_cases h with ⟨j, rfl, hj, haccepts, _⟩ | ⟨rfl, hpass, _⟩
    · have hno := hnone' j (hold j hj).2
      rw [hagree j (hold j hj).1, haccepts] at hno
      exact absurd hno.symm Bool.false_ne_true
    · refine .inl ?_
      rw [step_eq_pass hnone', if_pos]
      rw [List.length_append]
      exact ⟨hpass.1, Nat.lt_add_right _ hpass.2.1, hpass.2.2⟩

section Runs

variable {accepts accepts' : Nat → Nat → Bool}
  (hagree : ∀ j ≤ items.length, ∀ i, accepts' j i = accepts j i)
include hagree

/-- A match of the longer pattern takes the new token before a match of the pattern would stop, or
it moves as that one does and goes on from there. -/
theorem run_append (last : Node × Mark) {p : Place} (hp : p.Within items.length) (i remaining : Nat) :
    let moves := run items accepts p i remaining
    let moves' := run (items ++ [last]) accepts' p i remaining
    (∃ m ∈ moves', m.place = ⟨items.length + 1, 0⟩ ∧ m.index < i + moves.length) ∨
      moves' = moves ++ run (items ++ [last]) accepts' (lastPlace p moves) (i + moves.length)
        (remaining - moves.length) := by
  intro moves moves'
  induction remaining generalizing p i with
  | zero => exact .inr rfl
  | succ remaining ih =>
    cases hstep : step items (accepts · i) p with
    | none =>
      have hmoves : moves = [] := run_of_stuck hstep
      rw [hmoves]
      exact .inr rfl
    | some q =>
      have hmoves : moves = ⟨q, i⟩ :: run items accepts q (i + 1) remaining := run_of_step hstep
      rcases step_append last (hagree · · i) hp hstep with hsame | hnew
      · have hmoves' : moves' = ⟨q, i⟩ :: run (items ++ [last]) accepts' q (i + 1) remaining :=
          run_of_step hsame
        rw [hmoves, hmoves', List.length_cons, lastPlace_cons, Nat.add_sub_add_right,
          ← Nat.add_assoc, Nat.add_right_comm]
        rcases ih (step_within hstep).1 (i + 1) with ⟨m, hm, hplace, hindex⟩ | hgoes
        · exact .inl ⟨m, List.mem_cons_of_mem _ hm, hplace, hindex⟩
        · exact .inr (congrArg _ hgoes)
      · have hmoves' : moves' = _ := run_of_step hnew
        refine .inl ⟨⟨⟨items.length + 1, 0⟩, i⟩, ?_, rfl, ?_⟩
        · rw [hmoves']
          exact List.mem_cons_self ..
        · rw [hmoves, List.length_cons]
          show i < _
          omega

end Runs

/-! ### In front of the new token -/

/-- Behind the last token of a pattern a match of the longer one may also go on to the new token. -/
theorem mem_candidates_new {h j : Nat} :
    j ∈ candidates ((items ++ [last]).map (·.2)) ⟨items.length, h⟩ ↔
      j = items.length + 1 ∨ j ∈ candidates (items.map (·.2)) ⟨items.length, h⟩ := by
  have hlength : ((items ++ [last]).map (·.2)).length = (items.map (·.2)).length + 1 := by
    rw [List.length_map, List.length_map, List.length_append, List.length_singleton]
  have hitems : (items.map (·.2)).length = items.length := List.length_map _
  cases h with
  | zero =>
    have hwithin : (⟨items.length, 0⟩ : Place).Within (items.map (·.2)).length :=
      ⟨Nat.le_of_eq hitems.symm, .inl rfl⟩
    rcases Nat.lt_or_ge (items.map (·.2)).length j with hnew | hold
    · rw [mem_candidates, mem_candidates, hlength]
      constructor
      · exact fun hj => .inl (by omega)
      · rintro (rfl | hj)
        · exact ⟨by omega, .inr (.inl rfl)⟩
        · omega
    · rw [List.map_append, List.map_singleton, mem_candidates_append hwithin hold]
      exact (or_iff_right (by omega)).symm
  | succ h =>
    rw [mem_candidates_passed, mem_candidates_passed, hlength, hitems]
    omega

section New

variable {h : Nat}

theorem step_new {accepts : Nat → Bool}
    (hold : ∀ j ∈ candidates (items.map (·.2)) ⟨items.length, h⟩, accepts j = false)
    (hnew : accepts (items.length + 1) = true) :
    step (items ++ [last]) accepts ⟨items.length, h⟩ = some ⟨items.length + 1, 0⟩ := by
  refine step_eq_take (mem_candidates_new.mpr (.inl rfl)) hnew fun j hj haccepts => ?_
  rcases mem_candidates_new.mp hj with rfl | hj
  · exact ahead_refl _
  · exact absurd ((hold j hj).symm.trans haccepts) Bool.false_ne_true

theorem step_pass_new {accepts : Nat → Bool} (hpos : 1 ≤ items.length) (hh : h < 2)
    (hold : ∀ j ∈ candidates (items.map (·.2)) ⟨items.length, h⟩, accepts j = false)
    (hnew : accepts (items.length + 1) = false) :
    step (items ++ [last]) accepts ⟨items.length, h⟩ = some ⟨items.length, h + 1⟩ := by
  rw [step_eq_pass, if_pos]
  · rw [List.length_append, List.length_singleton]
    exact ⟨hpos, Nat.lt_succ_self _, hh⟩
  · intro j hj
    rcases mem_candidates_new.mp hj with rfl | hj
    · exact hnew
    · exact hold j hj

/-- A match that cannot move on behind the last token of a pattern takes the new one, if that
accepts one of the next three tokens of the text. -/
theorem exists_take_new {accepts : Nat → Nat → Bool} (hpos : 1 ≤ items.length)
    {d i remaining : Nat} (hd : h + d ≤ 2) (hlt : d < remaining)
    (hold : ∀ j ∈ candidates (items.map (·.2)) ⟨items.length, h⟩, accepts j i = false)
    (haccepts : accepts (items.length + 1) (i + d) = true) :
    ∃ m ∈ run (items ++ [last]) accepts ⟨items.length, h⟩ i remaining,
      m.place = ⟨items.length + 1, 0⟩ := by
  induction d generalizing h i remaining with
  | zero =>
    obtain ⟨remaining, rfl⟩ := Nat.exists_eq_add_of_le' hlt
    rw [run_of_step (step_new hold haccepts)]
    exact ⟨_, List.mem_cons_self .., rfl⟩
  | succ d ih =>
    obtain ⟨remaining, rfl⟩ := Nat.exists_eq_add_of_le' (Nat.one_le_of_lt hlt)
    cases hnew : accepts (items.length + 1) i with
    | true =>
      rw [run_of_step (step_new hold hnew)]
      exact ⟨_, List.mem_cons_self .., rfl⟩
    | false =>
      have hnone : ∀ j ∈ candidates (items.map (·.2)) ⟨items.length, h + 1⟩,
          accepts j (i + 1) = false := by
        intro j hj
        have hlt := (mem_candidates_passed.mp hj).1
        rw [List.length_map] at hlt
        exact absurd hlt (Nat.lt_irrefl _)
      rw [run_of_step (step_pass_new hpos (by omega) hold hnew)]
      rw [Nat.add_comm d 1, ← Nat.add_assoc] at haccepts
      obtain ⟨m, hm, hplace⟩ := ih (by omega) (Nat.lt_of_succ_lt_succ hlt) hnone haccepts
      exact ⟨m, List.mem_cons_of_mem _ hm, hplace⟩

end New

/-! ### Matches of the longer pattern -/

section Trailing

variable {accepts accepts' : Nat → Nat → Bool} {first remaining : Nat}
  (hend : IsEnd (items.map (·.2)) (lastPlace start (run items accepts start first remaining)))
  (hmark : last.2 ≠ .once)
include hend hmark

/-- A match of the longer pattern that takes the new token ends well where the pattern matches. -/
theorem isEnd_of_new {m : Move} (hm : m ∈ run (items ++ [last]) accepts' start first remaining)
    (hplace : m.place = ⟨items.length + 1, 0⟩) :
    IsEnd ((items ++ [last]).map (·.2))
      (lastPlace start (run (items ++ [last]) accepts' start first remaining)) := by
  have hle := lastPlace_run_token_le items accepts first remaining
  rw [lastPlace_of_mem_run hm (by rw [hplace, List.length_append]; rfl), List.map_append]
  refine hend.append (by rwa [List.length_map]) hmark (Nat.le_trans hle ?_)
  rw [List.length_append]
  exact Nat.le_add_right ..

/-- Where a pattern matches, the longer one does too if it takes the new token, if the match of the
pattern covers the range, or if the new token accepts one of the next three tokens of the text. -/
theorem isEnd_trailing (hagree : ∀ j ≤ items.length, ∀ i, accepts' j i = accepts j i) :
    let moves := run items accepts start first remaining
    let moves' := run (items ++ [last]) accepts' start first remaining
    ((∃ m ∈ moves', m.place = ⟨items.length + 1, 0⟩) ∨ moves.length = remaining ∨
      ∃ i, first + moves.length ≤ i ∧ i ≤ first + moves.length + 2 ∧ i < first + remaining ∧
        accepts' (items.length + 1) i = true) →
    IsEnd ((items ++ [last]).map (·.2)) (lastPlace start moves') := by
  intro moves moves' hcases
  have hpassed : lastPlace start moves = ⟨(lastPlace start moves).token, 0⟩ :=
    congrArg (Place.mk _) hend.1
  have hle : (lastPlace start moves).token ≤ items.length :=
    lastPlace_run_token_le items accepts first remaining
  rcases run_append hagree last (start_within _) first remaining with
    ⟨m, hm, hplace, _⟩ | hgoes
  · exact isEnd_of_new hend hmark hm hplace
  have hgoes : moves' = moves ++ run (items ++ [last]) accepts' (lastPlace start moves)
    (first + moves.length) (remaining - moves.length) := hgoes
  rcases hcases with ⟨m, hm, hplace⟩ | hlength | ⟨i, hi, hnear, hlt, haccepts⟩
  · exact isEnd_of_new hend hmark hm hplace
  · have hmoves' : moves' = moves := by
      rw [hgoes, hlength, Nat.sub_self]
      exact List.append_nil moves
    rw [hmoves', hpassed, List.map_append]
    exact hend.append (by rwa [List.length_map]) hmark (Nat.le_refl _)
  · -- the match of the pattern stopped within its range, which it does behind the last token only
    obtain ⟨d, rfl⟩ := Nat.exists_eq_add_of_le hi
    obtain ⟨k, hk, hpos, _⟩ := hend.2.1
    have hstuck : step items (accepts · (first + moves.length)) (lastPlace start moves) = none :=
      step_of_length_lt (show moves.length < remaining by omega)
    obtain ⟨hnone, hno⟩ := step_eq_none.mp hstuck
    have htoken : (lastPlace start moves).token = items.length := by
      by_contra hne
      exact hno ⟨Nat.le_trans hpos hk, Nat.lt_of_le_of_ne hle hne, hend.1 ▸ Nat.zero_lt_two⟩
    rw [htoken] at hpassed
    rw [hpassed] at hgoes hnone
    have hnone' : ∀ j ∈ candidates (items.map (·.2)) ⟨items.length, 0⟩,
        accepts' j (first + moves.length) = false := by
      intro j hj
      have hj' := (candidates_bounds hj).2.2
      rw [List.length_map] at hj'
      exact (hagree j hj' _).trans (hnone j hj)
    obtain ⟨m, hm, hplace⟩ : ∃ m ∈ run (items ++ [last]) accepts' ⟨items.length, 0⟩
        (first + moves.length) (remaining - moves.length), m.place = ⟨items.length + 1, 0⟩ :=
      exists_take_new (htoken ▸ Nat.le_trans hpos hk) (by omega) (by omega) hnone' haccepts
    have hm' : m ∈ moves' := by
      rw [hgoes]
      exact List.mem_append_right _ hm
    exact isEnd_of_new hend hmark hm' hplace

end Trailing

/-- A match of the longer pattern takes no fewer tokens than one of the pattern, unless it takes the
new token before that one would stop. -/
theorem countP_trailing {accepts accepts' : Nat → Nat → Bool} {first remaining : Nat}
    (hagree : ∀ j ≤ items.length, ∀ i, accepts' j i = accepts j i) :
    let moves := run items accepts start first remaining
    let moves' := run (items ++ [last]) accepts' start first remaining
    (¬∃ m ∈ moves', m.place = ⟨items.length + 1, 0⟩ ∧ m.index < first + moves.length) →
    moves.countP (·.place.passed = 0) ≤ moves'.countP (·.place.passed = 0) := by
  intro moves moves' hlate
  have hgoes : moves' = _ :=
    (run_append hagree last (start_within _) first remaining).resolve_left hlate
  rw [hgoes, List.countP_append]
  exact Nat.le_add_right ..

theorem accepts_append_of_le {lexicon : Lexicon} {text : Text} {more : List (Node × Mark)} {j : Nat}
    (hj : j ≤ items.length) (i : Nat) :
    accepts lexicon text (items ++ more) j i = accepts lexicon text items j i := by
  rw [accepts, accepts, List.map_append, nodeAt_append_of_le (by rwa [List.length_map])]

/-- A walk comes to the state of a token where the match takes that token. -/
theorem exists_step_iff {accepts : Nat → Nat → Bool} {first remaining k i : Nat}
    (hk : k ≤ items.length) :
    let moves := run items accepts start first remaining
    (∃ s ∈ moves.map Move.toStep, s.state = tokenId k ∧ s.index < i) ↔
      ∃ m ∈ moves, m.place = ⟨k, 0⟩ ∧ m.index < i := by
  intro moves
  constructor
  · intro hstep
    obtain ⟨s, hs, hstate, hindex⟩ := hstep
    obtain ⟨m, hm, rfl⟩ := List.mem_map.mp hs
    exact ⟨m, hm, Place.id_injective (run_within m hm).1 ⟨hk, .inl rfl⟩ hstate, hindex⟩
  · intro hmove
    obtain ⟨m, hm, hplace, hindex⟩ := hmove
    exact ⟨m.toStep, List.mem_map_of_mem hm, congrArg Place.id hplace, hindex⟩

end Greedy

namespace Matcher

/-- Where a pattern matches, the pattern with an optional token behind it matches too if it takes
that token inside the match, if the match reaches the end of the range, or if the token accepts one
of the next three tokens of the text. It takes no fewer tokens than the pattern itself, unless it
takes its last one inside the match. -/
theorem matchAt_trailing (lexicon : Lexicon) (id pattern more : String) (styles : Option String)
    (language : String) (text : Text) (first stop : Nat) (t : PatternToken)
    (hmore : tokensOf more = [t]) (hmark : t.mark ≠ .once) :
    let m := (compile id pattern styles language).run lexicon
    let longer := (compile id (pattern ++ " " ++ more) styles language).run lexicon
    let found := (m.matchAt text first stop).run lexicon
    let found' := (longer.matchAt text first stop).run lexicon
    let behind := first + found.window
    let early := ∃ s ∈ (longer.graph.walkAt text first stop).run lexicon,
      s.state = Greedy.tokenId ((tokensOf pattern).length + 1) ∧ s.index < behind
    found.isMatch = true →
      (early ∨ behind = min stop text.size ∨
          (∃ i, behind ≤ i ∧ i ≤ behind + 2 ∧ i < min stop text.size ∧
            t.accepts lexicon language text i = true) →
        found'.isMatch = true) ∧
      (found'.isMatch = true → ¬early → found.matchCount ≤ found'.matchCount) := by
  intro m longer found found' behind early hmatch
  set tokens := tokensOf pattern
  set items := Greedy.prepare lexicon language tokens
  set last : Node × Mark := ((t.node language).run lexicon, t.mark)
  have hlength : items.length = tokens.length := Greedy.length_prepare
  have htokens : tokensOf (pattern ++ " " ++ more) = tokens ++ [t] := by
    rw [tokensOf_append, hmore]
  have hitems : Greedy.prepare lexicon language (tokens ++ [t]) = items ++ [last] := List.map_append
  have hagree : ∀ j ≤ items.length, ∀ i, Greedy.accepts lexicon text (items ++ [last]) j i =
      Greedy.accepts lexicon text items j i := fun j hj => Greedy.accepts_append_of_le hj
  set moves := Greedy.run items (Greedy.accepts lexicon text items) Greedy.start first
    (min stop text.size - first)
  set moves' := Greedy.run (items ++ [last]) (Greedy.accepts lexicon text (items ++ [last]))
    Greedy.start first (min stop text.size - first)
  have hfound : found = Greedy.outcome items text moves := run_matchAt_compile ..
  have hfound' : found' = Greedy.outcome (items ++ [last]) text moves' := by
    rw [show found' = _ from run_matchAt_compile .., htokens, Greedy.matchAt, hitems]
  have hsteps : (longer.graph.walkAt text first stop).run lexicon =
      moves'.map Greedy.Move.toStep := by
    rw [show (longer.graph.walkAt text first stop).run lexicon = _ from run_walkAt_compile ..,
      htokens, hitems]
  have hearly : early ↔
      ∃ move ∈ moves', move.place = ⟨items.length + 1, 0⟩ ∧ move.index < behind := by
    simp only [early, hsteps]
    rw [← show items.length = (tokensOf pattern).length from hlength]
    exact Greedy.exists_step_iff (by rw [List.length_append]; rfl)
  have hend : Greedy.IsEnd (items.map (·.2)) (Greedy.lastPlace Greedy.start moves) := by
    rwa [hfound, Greedy.isMatch_outcome] at hmatch
  have hwindow : found.window = moves.length := by rw [hfound, Greedy.outcome_of_isEnd hend]
  have hbehind : behind = first + moves.length := by rw [← hwindow]
  rw [hearly, hbehind]
  refine ⟨fun hcases => ?_, fun hmatch' hlate => ?_⟩
  · rw [hfound', Greedy.isMatch_outcome]
    refine Greedy.isEnd_trailing hend hmark hagree ?_
    rcases hcases with ⟨move, hmove, hplace, _⟩ | hstop | ⟨i, hi, hnear, hlt, haccepts⟩
    · exact .inl ⟨move, hmove, hplace⟩
    · exact .inr (.inl (show moves.length = _ by omega))
    · refine .inr (.inr ⟨i, hi, hnear, by omega, ?_⟩)
      rw [← hitems, hlength, Greedy.accepts_prepare List.getElem?_concat_length]
      exact haccepts
  · have hend' := hmatch'
    rw [hfound', Greedy.isMatch_outcome] at hend'
    rw [hfound, hfound', Greedy.outcome_of_isEnd hend, Greedy.outcome_of_isEnd hend']
    exact Greedy.countP_trailing hagree hlate

/-- The new token is two tokens of the text behind the match. -/
theorem matchAt_trailing_gap :
    let lexicon := Dictionary.empty.lexicon
    let text := Text.ofWords ["xxx", "zzz", "zzz", "yyy"]
    let m := (compile "1" "xxx" none "en").run lexicon
    let longer := (compile "1" ("xxx" ++ " " ++ "yyy?") none "en").run lexicon
    let found := (m.matchAt text 0 4).run lexicon
    let found' := (longer.matchAt text 0 4).run lexicon
    let t : PatternToken := ⟨.literal "yyy", .optional⟩
    (tokensOf "yyy?" = [t] ∧ t.mark ≠ .once ∧ found.isMatch = true) ∧ found'.isMatch = true ∧
      found.matchCount ≤ found'.matchCount := by
  intro lexicon text m longer found found' t
  have hmore : tokensOf "yyy?" = [t] := by decide +kernel
  have hmark : t.mark ≠ .once := by decide
  have hmatch : found.isMatch = true := by decide +kernel
  obtain ⟨hlonger, hcount⟩ :=
    matchAt_trailing lexicon "1" "xxx" "yyy?" none "en" text 0 4 t hmore hmark hmatch
  have hmatch' : found'.isMatch = true :=
    hlonger (.inr (.inr ⟨3, by decide +kernel, by decide +kernel, by decide, by decide⟩))
  refine ⟨⟨hmore, hmark, hmatch⟩, hmatch', hcount hmatch' ?_⟩
  decide +kernel

/-- A token that is tried first ends the match of a variable early, and a match is lost where the
text goes on behind it with what the new token does not accept. -/
theorem matchAt_trailing_loss :
    let lexicon := Dictionary.empty.lexicon
    let found (pattern : String) (words : List String) : PatternMatch :=
      (((compile "1" pattern none "en").run lexicon).matchAt (Text.ofWords words) 0
        words.length).run lexicon
    ((found "xxx $name*" ["xxx", "yyy", "zzz"]).matchCount = 3 ∧
      (found "xxx $name* yyy?" ["xxx", "yyy", "zzz"]).matchCount = 2) ∧
    (found "xxx" ["xxx", "zzz"]).isMatch = true ∧
      (found "xxx yyy?" ["xxx", "zzz"]).isMatch = false := by
  decide +kernel

end Matcher
end TokenPatterns
