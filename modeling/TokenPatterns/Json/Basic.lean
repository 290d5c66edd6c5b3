/-! JSON values.

Two kinds of values are kept apart that other readings of JSON merge: a number is an integer only
if it is written without fraction, exponent and negative zero, and a string whose surrogate escapes
do not pair up is no text. Both may stand in a document; only a decoder that wants an integer or a
text refuses them. The members of an object keep their order and their repeats. -/
namespace TokenPatterns

/-- A string of a document: its text, or nothing if its escapes give no text. -/
abbrev Json.Text := Option String

inductive Json where
  | null
  | bool (b : Bool)
  | integer (n : Int)
  /-- A number that is no integer, as it is written. -/
  | decimal (literal : String)
  | string (s : Json.Text)
  | array (items : List Json)
  | object (members : List (Json.Text × Json))

namespace Json

def ofString (s : String) : Json := .string (some s)

def ofNat (n : Nat) : Json := .integer n

/-- An absent value is null. -/
def ofOption {α : Type} (f : α → Json) : Option α → Json
  | some a => f a
  | none => .null

def ofList {α : Type} (f : α → Json) (as : List α) : Json := .array (as.map f)

/-- The object with the given members. -/
def ofMembers (members : List (String × Json)) : Json :=
  .object (members.map fun (key, value) => (some key, value))

end Json
end TokenPatterns
