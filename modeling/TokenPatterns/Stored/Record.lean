import TokenPatterns.Json.Basic

/-! Reading records from JSON.

A record is stored as an object whose members are its fields, or as an array of its fields in
order. In an object, members with other names are ignored, and no field may occur twice. In an
array there may be no more items than fields. What happens when a field is missing depends on the
field: it may be required, optional, or have a default. An optional field may be missing from an
object but not from an array; a field with a default may be missing from both. -/
namespace TokenPatterns

/-- A type whose values are stored as JSON. -/
class Stored (α : Type) where
  encode : α → Json
  decode? : Json → Option α

namespace Stored

/-- One more than the greatest number that a word of memory holds. -/
def wordLimit : Nat := 18446744073709551616

/-- Counts and positions are natural numbers that fit into a word. -/
instance : Stored Nat where
  encode := Json.ofNat
  decode?
    | .integer (.ofNat n) => if n < wordLimit then some n else none
    | _ => none

/-- Codes are integers that fit into a byte. -/
instance : Stored Int8 where
  encode code := .integer code.toInt
  decode?
    | .integer n => if -128 ≤ n ∧ n ≤ 127 then some (Int8.ofInt n) else none
    | _ => none

instance : Stored String where
  encode := Json.ofString
  decode?
    | .string s => s
    | _ => none

variable {α : Type} [Stored α]

instance : Stored (List α) where
  encode := Json.ofList encode
  decode?
    | .array items => items.mapM decode?
    | _ => none

instance : Stored (Array α) where
  encode as := encode as.toList
  decode? v := (decode? v : Option (List α)).map List.toArray

/-- An absent value is null. -/
instance : Stored (Option α) where
  encode := Json.ofOption encode
  decode?
    | .null => some none
    | v => (decode? v).map some

/-- A variant without data is its name, or an object that gives the name the value null. -/
def variant? (ofName? : String → Option α) : Json → Option α
  | .string (some name) => ofName? name
  | .object [(some name, .null)] => ofName? name
  | _ => none

/-- Members with keys that are texts. -/
def textKeys? (members : List (Json.Text × Json)) : Option (List (String × Json)) :=
  members.mapM fun (key, v) => key.map (·, v)

/-! ### Records -/

/-- The stored fields of a record. -/
inductive Fields where
  | named (members : List (String × Json))
  | listed (items : List Json)

namespace Fields

/-- The stored fields of a record whose fields have the given names. -/
def of? (names : List String) : Json → Option Fields
  | .object members => do
    let members ← textKeys? members
    if names.all fun name => (members.filter (·.1 == name)).length ≤ 1 then
      pure (.named members)
    else none
  | .array items => if items.length ≤ names.length then some (.listed items) else none
  | _ => none

/-- What is stored for a field, if anything is. -/
def value? (fields : Fields) (place : Nat) (name : String) : Option Json :=
  match fields with
  | named members => members.lookup name
  | listed items => items[place]?

/-- A field that must be there. -/
def required (fields : Fields) (place : Nat) (name : String) : Option α :=
  (fields.value? place name).bind decode?

/-- A field that may be absent: null, or missing from an object. -/
def optional (fields : Fields) (place : Nat) (name : String) : Option (Option α) :=
  match fields, fields.value? place name with
  | _, some v => decode? v
  | named _, none => some none
  | listed _, none => none

/-- A field that has a default where it is missing. -/
def defaulted (fields : Fields) (place : Nat) (name : String) (default : α) : Option α :=
  match fields.value? place name with
  | some v => decode? v
  | none => some default

end Fields
end Stored
end TokenPatterns
