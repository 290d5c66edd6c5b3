import TokenPatterns.Letter.Blank
import TokenPatterns.Pattern.Capture

/-! Style labels.

A pattern may carry labels, written as groups `key=value` with semicolons between them. A group
counts if, apart from equals signs at its end, it has exactly one equals sign, with something
other than blanks on both sides of it; key and value are trimmed. Later groups win over earlier
ones with the same key. -/
namespace TokenPatterns.Style

/-- The value of a style that a winning pattern does not set itself. -/
def wildcard : String := "*"

/-- The pieces between equals signs without the empty ones at the end. -/
def pieces (group : List Char) : List (List Char) :=
  ((group.splitOn '=').reverse.dropWhile List.isEmpty).reverse

/-- The key and the value of a group, if it counts. -/
def ofGroup? (group : List Char) : Option (String × String) :=
  match pieces group with
  | [key, value] =>
    if Letter.allBlank key || Letter.allBlank value then none
    else some (String.ofList (Letter.trim key), String.ofList (Letter.trim value))
  | _ => none

/-- The keys and values of the groups that count, in order. -/
def pairs (styles : String) : List (String × String) :=
  (styles.toList.splitOn ';').filterMap ofGroup?

/-- Some bindings with pairs laid over them, the later ones last. -/
def overlay (bindings : Bindings) (pairs : List (String × String)) : Bindings :=
  pairs.foldl (fun bindings (key, value) => bindings.insert key value) bindings

/-- The labels of a style text. -/
def parse (styles : String) : Bindings := overlay ∅ (pairs styles)

end TokenPatterns.Style
