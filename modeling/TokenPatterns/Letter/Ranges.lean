/-! Sets of characters given by ranges of code points, ascending and apart from each other. -/
namespace TokenPatterns.Letter

/-- The first and the last code point of each range. -/
abbrev Ranges := List (Nat × Nat)

namespace Ranges

/-- Whether a code point lies in a range; the search ends at the first range beyond it. -/
def contains (n : Nat) : Ranges → Bool
  | [] => false
  | (first, last) :: rest => if n < first then false else n ≤ last || contains n rest

end Ranges
end TokenPatterns.Letter
