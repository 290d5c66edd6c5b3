import Std.Data.ExtTreeSet

/-! Orders taken over from lists of strings.

Sets and maps need a linear order on their members, but which one is of no matter. A `Keyed` type
gives each of its values a list of strings, different for different values, and has the order of
these lists. -/
namespace TokenPatterns

class Keyed (α : Type) where
  key : α → List String
  key_injective : ∀ {a b : α}, key a = key b → a = b

namespace Keyed
variable {α : Type} [Keyed α]

instance : Ord α := ⟨fun a b => compare (key a) (key b)⟩

instance : Std.TransOrd α where
  eq_swap := by
    intro a b
    exact Std.OrientedOrd.eq_swap (α := List String)
  isLE_trans := by
    intro a b c h₁ h₂
    exact Std.TransOrd.isLE_trans (α := List String) h₁ h₂

instance : Std.LawfulEqOrd α where
  eq_of_compare := by
    intro a b h
    exact key_injective (Std.LawfulEqOrd.eq_of_compare (α := List String) h)

end Keyed
end TokenPatterns
