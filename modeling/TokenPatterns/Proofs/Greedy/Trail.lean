import Mathlib.Data.Nat.Find
import TokenPatterns.Proofs.Greedy.Machine

/-! Trails.

A trail leads some tokens of a pattern through a text: each takes the first position that it
accepts, which must be one of the three next behind the position of the token before. Tokens of the
text that the tokens of the pattern accept one by one are a trail (`Trail.of_contiguous`). -/
namespace TokenPatterns

namespace Greedy

/-- The first accepted position from some position on, if it comes before the end. -/
structure IsFirst (accepts : Nat → Bool) (stop i q : Nat) : Prop where
  le : i ≤ q
  lt : q < stop
  accepted : accepts q = true
  first : ∀ x, i ≤ x → x < q → accepts x = false

/-- The first accepted position if it is also one of the next three. -/
structure IsNext (accepts : Nat → Bool) (stop i q : Nat) : Prop extends
    IsFirst accepts stop i q where
  near : q ≤ i + 2

/-- The tokens of a list take the next accepted position each, from one position on; the other
position is the one behind the last token. -/
inductive Trail (accepts : PatternToken → Nat → Bool) (stop : Nat) :
    List PatternToken → Nat → Nat → Prop where
  | nil (i : Nat) : Trail accepts stop [] i i
  | cons {t : PatternToken} {ts : List PatternToken} {i q j : Nat}
      (next : IsNext (accepts t) stop i q) (rest : Trail accepts stop ts (q + 1) j) :
      Trail accepts stop (t :: ts) i j

/-- A trail from the start of a match, whose first token has to take the first position. -/
def Opening (accepts : PatternToken → Nat → Bool) (stop : Nat) :
    List PatternToken → Nat → Nat → Prop
  | [], first, j => j = first
  | t :: ts, first, j => first < stop ∧ accepts t first = true ∧ Trail accepts stop ts (first + 1) j

theorem exists_isFirst {accepts : Nat → Bool} {stop i x : Nat} (hi : i ≤ x) (hstop : x < stop)
    (hx : accepts x = true) : ∃ q, IsFirst accepts stop i q ∧ q ≤ x := by
  have hex : ∃ x, i ≤ x ∧ accepts x = true := ⟨x, hi, hx⟩
  have hle : Nat.find hex ≤ x := Nat.find_min' hex ⟨hi, hx⟩
  refine ⟨Nat.find hex, ⟨(Nat.find_spec hex).1, Nat.lt_of_le_of_lt hle hstop,
    (Nat.find_spec hex).2, ?_⟩, hle⟩
  intro y hy hlt
  have hmin := Nat.find_min hex hlt
  exact Bool.eq_false_iff.mpr fun hacc => hmin ⟨hy, hacc⟩

variable {accepts : PatternToken → Nat → Bool} {stop : Nat} {ts : List PatternToken} {i j : Nat}

theorem Trail.le_stop (h : Trail accepts stop ts i j) (hi : i ≤ stop) : j ≤ stop := by
  induction h with
  | nil i => exact hi
  | cons next _ ih => exact ih next.lt

theorem Opening.le_stop (hne : ts ≠ []) (h : Opening accepts stop ts i j) : j ≤ stop := by
  cases ts with
  | nil => exact absurd rfl hne
  | cons t ts => exact h.2.2.le_stop h.1

/-- Each token of a list accepts the token of the text at its own distance from a position. -/
def Contiguous (accepts : PatternToken → Nat → Bool) (ts : List PatternToken) (i : Nat) : Prop :=
  ∀ k t, ts[k]? = some t → accepts t (i + k) = true

theorem Contiguous.tail {t : PatternToken} (h : Contiguous accepts (t :: ts) i) :
    Contiguous accepts ts (i + 1) := by
  intro k u hu
  rw [Nat.add_assoc, Nat.add_comm 1 k]
  exact h (k + 1) u hu

theorem Trail.of_contiguous (hstop : i + ts.length ≤ stop) (h : Contiguous accepts ts i) :
    Trail accepts stop ts i (i + ts.length) := by
  induction ts generalizing i with
  | nil => exact .nil i
  | cons t ts ih =>
    rw [List.length_cons] at hstop
    have hnext : IsNext (accepts t) stop i i :=
      ⟨⟨Nat.le_refl i, by omega, h 0 t rfl, fun x hx hlt => absurd hx (Nat.not_le_of_lt hlt)⟩,
        Nat.le_add_right i 2⟩
    have hrest := ih (i := i + 1) (by omega) h.tail
    rw [List.length_cons, Nat.add_comm ts.length 1, ← Nat.add_assoc]
    exact .cons hnext hrest

theorem Opening.of_contiguous (hstop : i + ts.length ≤ stop) (h : Contiguous accepts ts i) :
    Opening accepts stop ts i (i + ts.length) := by
  cases ts with
  | nil => rfl
  | cons t ts =>
    rw [List.length_cons] at hstop
    have hrest : Trail accepts stop ts (i + 1) (i + 1 + ts.length) :=
      Trail.of_contiguous (by omega) h.tail
    rw [List.length_cons, Nat.add_comm ts.length 1, ← Nat.add_assoc]
    exact ⟨by omega, h 0 t rfl, hrest⟩

end Greedy
end TokenPatterns
