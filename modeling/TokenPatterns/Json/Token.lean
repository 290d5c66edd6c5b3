import TokenPatterns.Json.Basic

/-! The tokens of a JSON document.

A document is read character by character. Punctuation is a token by itself; a string and a word,
which is a longest run of letters, digits, signs and points, are tokens with a value. -/
namespace TokenPatterns.Json

inductive Token where
  | beginArray
  | endArray
  | beginObject
  | endObject
  | comma
  | colon
  | string (s : Json.Text)
  /-- A literal name or a number. -/
  | scalar (value : Json)

/-! ### Words -/

/-- The characters of literal names and numbers. -/
def isWordChar (c : Char) : Bool := c.isAlphanum || c == '-' || c == '+' || c == '.'

/-- The digits at the start of a word, of which there must be one, and the rest. -/
def digits? (cs : List Char) : Option (List Char × List Char) :=
  let digits := cs.takeWhile Char.isDigit
  if digits.isEmpty then none else some (digits, cs.dropWhile Char.isDigit)

/-- The digits of a whole number, which do not begin with a zero unless they are one. -/
def whole? (cs : List Char) : Option (List Char × List Char) :=
  match digits? cs with
  | some ('0' :: _ :: _, _) => none
  | r => r

/-- What follows a whole number: nothing, or a fraction, an exponent or both. -/
def isTail (cs : List Char) : Bool :=
  let exponent (cs : List Char) : Bool :=
    match cs with
    | [] => true
    | e :: cs =>
      (e == 'e' || e == 'E') &&
        match cs with
        | sign :: ds =>
          let ds := if sign == '+' || sign == '-' then ds else cs
          !ds.isEmpty && ds.all Char.isDigit
        | [] => false
  match cs with
  | '.' :: cs =>
    match digits? cs with
    | some (_, rest) => exponent rest
    | none => false
  | cs => exponent cs

/-- The number that some decimal digits denote. -/
def natOfDigits (ds : List Char) : Nat := ds.foldl (fun n d => 10 * n + (d.toNat - '0'.toNat)) 0

/-- The number that a word denotes. -/
def number? (word : List Char) : Option Json :=
  let (negative, unsigned) :=
    match word with
    | '-' :: rest => (true, rest)
    | _ => (false, word)
  match whole? unsigned with
  | none => none
  | some (ds, rest) =>
    if !isTail rest then none
    else if rest.isEmpty && !(negative && ds == ['0']) then
      some (.integer (if negative then -(natOfDigits ds : Int) else natOfDigits ds))
    else some (.decimal (String.ofList word))

/-- The value that a word denotes. -/
def word? (word : List Char) : Option Json :=
  if word == "null".toList then some .null
  else if word == "true".toList then some (.bool true)
  else if word == "false".toList then some (.bool false)
  else number? word

/-! ### Strings -/

/-- The part of a string that has been read: its characters, last first; a high surrogate that
waits for a low one; and whether some surrogate has no partner. -/
structure Partial where
  chars : List Char := []
  high : Option Nat := none
  broken : Bool := false

namespace Partial

/-- Adds a character; a waiting surrogate then has no partner. -/
def push (p : Partial) (c : Char) : Partial :=
  { chars := c :: p.chars, high := none, broken := p.broken || p.high.isSome }

/-- Adds a code unit. -/
def pushUnit (p : Partial) (n : Nat) : Partial :=
  if 0xd800 ≤ n && n < 0xdc00 then {p with high := some n, broken := p.broken || p.high.isSome}
  else if 0xdc00 ≤ n && n < 0xe000 then
    match p.high with
    | some h =>
      {p with
        chars := Char.ofNat (0x10000 + (h - 0xd800) * 0x400 + (n - 0xdc00)) :: p.chars
        high := none}
    | none => {p with broken := true}
  else p.push (Char.ofNat n)

def text (p : Partial) : Json.Text :=
  if p.broken || p.high.isSome then none else some (String.ofList p.chars.reverse)

end Partial

/-- The character that a one-letter escape stands for. -/
def escaped? : Char → Option Char
  | '"' => some '"'
  | '\\' => some '\\'
  | '/' => some '/'
  | 'b' => some '\x08'
  | 'f' => some '\x0c'
  | 'n' => some '\n'
  | 'r' => some '\r'
  | 't' => some '\t'
  | _ => none

/-- The value of a hexadecimal digit. -/
def hexDigit? (c : Char) : Option Nat :=
  if c.isDigit then some (c.toNat - '0'.toNat)
  else if 'a' ≤ c && c ≤ 'f' then some (c.toNat - 'a'.toNat + 10)
  else if 'A' ≤ c && c ≤ 'F' then some (c.toNat - 'A'.toNat + 10)
  else none

/-! ### The reader of tokens -/

/-- Where a reader of tokens stands. -/
inductive Mode where
  | between
  /-- In a word, of which some characters have been read, last first. -/
  | word (chars : List Char)
  | string (p : Partial)
  /-- Behind a backslash. -/
  | escape (p : Partial)
  /-- In a code unit, of which some digits are missing. -/
  | unit (p : Partial) (missing value : Nat)

/-- A reader of tokens: where it stands, and the tokens read so far, last first. -/
structure Scanner where
  mode : Mode := .between
  tokens : List Token := []

namespace Scanner

/-- Ends the word that is being read. -/
def endWord? (s : Scanner) : Option Scanner :=
  match s.mode with
  | .word chars => (word? chars.reverse).map fun v => ⟨.between, .scalar v :: s.tokens⟩
  | _ => some s

/-- Reads a character outside words and strings. -/
def startToken? (s : Scanner) (c : Char) : Option Scanner :=
  let punctuation (t : Token) : Option Scanner := some ⟨.between, t :: s.tokens⟩
  match c with
  | ' ' | '\t' | '\n' | '\r' => some ⟨.between, s.tokens⟩
  | '[' => punctuation .beginArray
  | ']' => punctuation .endArray
  | '\x7b' => punctuation .beginObject
  | '\x7d' => punctuation .endObject
  | ',' => punctuation .comma
  | ':' => punctuation .colon
  | '"' => some ⟨.string {}, s.tokens⟩
  | c => if isWordChar c then some ⟨.word [c], s.tokens⟩ else none

/-- Reads a character. -/
def step? (s : Scanner) (c : Char) : Option Scanner :=
  match s.mode with
  | .between => s.startToken? c
  | .word chars =>
    if isWordChar c then some ⟨.word (c :: chars), s.tokens⟩
    else s.endWord?.bind (·.startToken? c)
  | .string p =>
    if c == '"' then some ⟨.between, .string p.text :: s.tokens⟩
    else if c == '\\' then some ⟨.escape p, s.tokens⟩
    else if c.toNat < 0x20 then none
    else some ⟨.string (p.push c), s.tokens⟩
  | .escape p =>
    if c == 'u' then some ⟨.unit p 4 0, s.tokens⟩
    else (escaped? c).map fun e => ⟨.string (p.push e), s.tokens⟩
  | .unit p missing value =>
    (hexDigit? c).map fun d =>
      let value := 16 * value + d
      if missing ≤ 1 then ⟨.string (p.pushUnit value), s.tokens⟩
      else ⟨.unit p (missing - 1) value, s.tokens⟩

end Scanner

/-- The tokens of a document. -/
def tokens? (cs : List Char) : Option (List Token) :=
  match (cs.foldlM Scanner.step? {}).bind Scanner.endWord? with
  | some ⟨.between, tokens⟩ => some tokens.reverse
  | _ => none

end TokenPatterns.Json
