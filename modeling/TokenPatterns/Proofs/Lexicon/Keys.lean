import Mathlib.Data.Finset.Card
import TokenPatterns.Keyed

/-! The keys of a map as a finite set. The size of a map counts them. -/
namespace TokenPatterns

variable {α β : Type} [Keyed α] [DecidableEq α]

def keySet (m : Std.ExtTreeMap α β) : Finset α := m.keys.toFinset

@[simp] theorem mem_keySet {m : Std.ExtTreeMap α β} {k : α} : k ∈ keySet m ↔ k ∈ m :=
  List.mem_toFinset.trans Std.ExtTreeMap.mem_keys

theorem card_keySet (m : Std.ExtTreeMap α β) : (keySet m).card = m.size :=
  (List.toFinset_card_of_nodup Std.ExtTreeMap.nodup_keys).trans Std.ExtTreeMap.length_keys

theorem keySet_empty : keySet (∅ : Std.ExtTreeMap α β) = ∅ :=
  Finset.eq_empty_of_forall_notMem fun _ hk =>
    Std.ExtTreeMap.not_mem_empty (mem_keySet.mp hk)

theorem keySet_insert (m : Std.ExtTreeMap α β) (k : α) (v : β) :
    keySet (m.insert k v) = insert k (keySet m) := by
  ext other
  rw [mem_keySet, Std.ExtTreeMap.mem_insert, Std.compare_eq_iff_eq, Finset.mem_insert, mem_keySet,
    eq_comm (a := k)]

end TokenPatterns
