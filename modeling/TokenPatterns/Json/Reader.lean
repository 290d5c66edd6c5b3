import TokenPatterns.Json.Token

/-! The value of a JSON document.

The value is put together token by token; the arrays and objects that are still open wait on a
stack, so that documents may be nested to any depth. -/
namespace TokenPatterns.Json

/-- An array or object that is still open, with what it holds so far, last first. -/
inductive Frame where
  | array (items : List Json)
  /-- An object, with the key of the member whose value is awaited. -/
  | object (members : List (Json.Text × Json)) (key : Json.Text)

/-- What may come next. -/
inductive Expectation where
  | value
  /-- The first item of an array, or its end. -/
  | itemOrEnd
  /-- The first key of an object, or its end. -/
  | keyOrEnd
  /-- A further key of the object. -/
  | key (members : List (Json.Text × Json))
  /-- The colon behind a key. -/
  | colon (members : List (Json.Text × Json)) (key : Json.Text)
  /-- What follows a value. -/
  | after (value : Json)

/-- A reader of values: the open arrays and objects, innermost first, and what may come next. -/
structure Builder where
  frames : List Frame := []
  expected : Expectation := .value

namespace Builder

/-- Reads the first token of a value. -/
def value? (frames : List Frame) : Token → Option Builder
  | .scalar v => some ⟨frames, .after v⟩
  | .string s => some ⟨frames, .after (.string s)⟩
  | .beginArray => some ⟨.array [] :: frames, .itemOrEnd⟩
  | .beginObject => some ⟨frames, .keyOrEnd⟩
  | _ => none

/-- Reads a token behind a value. -/
def after? (v : Json) : List Frame → Token → Option Builder
  | .array items :: frames, .comma => some ⟨.array (v :: items) :: frames, .value⟩
  | .array items :: frames, .endArray => some ⟨frames, .after (.array (v :: items).reverse)⟩
  | .object members key :: frames, .comma => some ⟨frames, .key ((key, v) :: members)⟩
  | .object members key :: frames, .endObject =>
    some ⟨frames, .after (.object ((key, v) :: members).reverse)⟩
  | _, _ => none

/-- Reads a token. -/
def step? (b : Builder) (t : Token) : Option Builder :=
  match b.expected, t with
  | .value, t => value? b.frames t
  | .itemOrEnd, .endArray => some ⟨b.frames.tail, .after (.array [])⟩
  | .itemOrEnd, t => value? b.frames t
  | .keyOrEnd, .endObject => some ⟨b.frames, .after (.object [])⟩
  | .keyOrEnd, .string s => some ⟨b.frames, .colon [] s⟩
  | .key members, .string s => some ⟨b.frames, .colon members s⟩
  | .colon members key, .colon => some ⟨.object members key :: b.frames, .value⟩
  | .after v, t => after? v b.frames t
  | _, _ => none

end Builder

/-- The value of a sequence of tokens. -/
def ofTokens? (tokens : List Token) : Option Json :=
  match tokens.foldlM Builder.step? {} with
  | some ⟨[], .after v⟩ => some v
  | _ => none

/-- The value of a document. -/
def parse? (document : String) : Option Json := (tokens? document.toList).bind ofTokens?

end TokenPatterns.Json
