import TokenPatterns.Json.Basic

/-! The shortest document of a JSON value.

There are no blanks between tokens. Inside strings only quotes, backslashes and control characters
are escaped; a string that is no text is written as an empty one. -/
namespace TokenPatterns.Json

/-- A control character by the four digits of its code unit. -/
def unitEscape (n : Nat) : List Char :=
  let ds := Nat.toDigits 16 n
  ['\\', 'u'] ++ List.replicate (4 - ds.length) '0' ++ ds

def printedChar (c : Char) : List Char :=
  if c = '"' then ['\\', '"']
  else if c = '\\' then ['\\', '\\']
  else if c.toNat < 0x20 then unitEscape c.toNat
  else [c]

def printedString (s : Json.Text) : String :=
  "\"" ++ String.ofList ((s.getD "").toList.flatMap printedChar) ++ "\""

mutual

/-- Writes a value behind a text. -/
def printOn (out : String) : Json → String
  | .null => out ++ "null"
  | .bool b => out ++ (if b then "true" else "false")
  | .integer n => out ++ toString n
  | .decimal literal => out ++ literal
  | .string s => out ++ printedString s
  | .array items => printItems (out ++ "[") "" items ++ "]"
  | .object members => printMembers (out ++ "\x7b") "" members ++ "\x7d"

/-- Writes items, the first one behind nothing and the others behind a comma. -/
def printItems (out between : String) : List Json → String
  | [] => out
  | item :: items => printItems (printOn (out ++ between) item) "," items

/-- Writes members, the first one behind nothing and the others behind a comma. -/
def printMembers (out between : String) : List (Json.Text × Json) → String
  | [] => out
  | (key, value) :: members =>
    printMembers (printOn (out ++ between ++ printedString key ++ ":") value) "," members

end

/-- The shortest document of a value. -/
def print (value : Json) : String := printOn "" value

end TokenPatterns.Json
