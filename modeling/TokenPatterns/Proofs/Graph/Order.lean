import TokenPatterns.Proofs.Graph.Links

/-! The order in which successors are listed.

Successors are sorted by insertion (`sortIds_eq_insertionSort`), by the priority and the text of their
nodes, and nodes that agree in both keep the order of their links (`pairwise_sortIds`). -/
namespace TokenPatterns

namespace Node

/-- Every node that is not a skip comes before a skip. -/
theorem before_skip {n : Node} (h : n.priority ≠ .skip) : n.before .skip = true := by
  have hrank : Priority.skip.rank < n.priority.rank := by
    cases hp : n.priority
    · exact absurd hp h
    all_goals decide
  simp only [before, skip, hrank, decide_true, Bool.true_or]

/-- Whether one number stands before another one in a sorted list of node numbers, given the
relation `R` in which the list was before. -/
def Sorted (node : Nat → Node) (R : Nat → Nat → Prop) (a b : Nat) : Prop :=
  (node b).rank < (node a).rank ∨ (node b).rank = (node a).rank ∧ R a b

variable {node : Nat → Node} {R : Nat → Nat → Prop}

theorem Sorted.antisymm {a b : Nat} (h : Sorted node (· ≤ ·) a b) (h' : Sorted node (· ≤ ·) b a) :
    a = b := by
  rcases h with h | ⟨h, hle⟩ <;> rcases h' with h' | ⟨h', hle'⟩
  · exact absurd h' (lt_asymm h)
  · exact absurd h'.symm (ne_of_lt h)
  · exact absurd h.symm (ne_of_lt h')
  · exact Nat.le_antisymm hle hle'

/-- Whether a number may stand in front of another one in a sorted list. -/
def Precedes (node : Nat → Node) (a b : Nat) : Prop := (node b).rank ≤ (node a).rank

instance : DecidableRel (Precedes node) := fun _ _ => inferInstanceAs (Decidable (_ ≤ _))

instance : Std.Total (Precedes node) := ⟨fun _ _ => le_total ..⟩

instance : IsTrans Nat (Precedes node) := ⟨fun _ _ _ hab hbc => le_trans hbc hab⟩

theorem before_eq_not_precedes (a b : Nat) :
    (node b).before (node a) = decide ¬Precedes node a b := by
  rw [Bool.eq_iff_iff, before_iff, decide_eq_true_eq, Precedes, not_le]

theorem sortIds_eq_insertionSort (ids : List Nat) :
    sortIds node ids = ids.insertionSort (Precedes node) := by
  rw [sortIds, List.insertionSort]
  congr
  funext id sorted
  simp only [before_eq_not_precedes, List.orderedInsert_eq_take_drop]

theorem perm_sortIds (ids : List Nat) : (sortIds node ids).Perm ids :=
  sortIds_eq_insertionSort ids ▸ List.perm_insertionSort ..

/-- Numbers whose nodes agree with a given one keep their order. -/
theorem filter_sortIds (ids : List Nat) (a : Nat) :
    (sortIds node ids).filter (fun b => (node b).rank = (node a).rank) =
      ids.filter fun b => (node b).rank = (node a).rank := by
  let agrees (b : Nat) : Bool := (node b).rank = (node a).rank
  have hprecedes : (ids.filter agrees).Pairwise (Precedes node) := by
    refine List.pairwise_of_forall_mem_list fun b hb c hc => ?_
    have hb := of_decide_eq_true (List.mem_filter.mp hb).2
    have hc := of_decide_eq_true (List.mem_filter.mp hc).2
    exact le_of_eq (hc.trans hb.symm)
  have hkept : (ids.filter agrees).Sublist (sortIds node ids) := by
    rw [sortIds_eq_insertionSort]
    exact List.sublist_insertionSort hprecedes List.filter_sublist
  have hfiltered := hkept.filter agrees
  simp only [List.filter_filter, Bool.and_self] at hfiltered
  exact (hfiltered.eq_of_length ((perm_sortIds ids).filter agrees).length_eq.symm).symm

/-- Sorting is stable. -/
theorem pairwise_sortIds {ids : List Nat} (h : ids.Pairwise R) :
    (sortIds node ids).Pairwise (Sorted node R) := by
  have hprecedes : (sortIds node ids).Pairwise (Precedes node) :=
    sortIds_eq_insertionSort ids ▸ List.pairwise_insertionSort ..
  rw [List.pairwise_iff_forall_sublist] at h hprecedes ⊢
  intro a b hab
  rcases lt_or_eq_of_le (hprecedes hab) with hlt | heq
  · exact .inl hlt
  · have hkept := hab.filter fun b => (node b).rank = (node a).rank
    rw [filter_sortIds, List.filter_eq_self.mpr (by simp [heq])] at hkept
    exact .inr ⟨heq, h (hkept.trans List.filter_sublist)⟩

end Node
end TokenPatterns
