import TokenPatterns.Letter.Blank

/-! The tokens of a pattern.

A pattern is written as tokens with blanks between them. A token is a term, which says what a
token of the text must be, and a mark behind it: a star lets it occur any number of times, a
question mark once or not at all. There are four kinds of terms: `<class>` asks for a
part-of-speech tag, `[word|class]` for a synonym, `$name` takes any token, and any other text
stands for itself. The first two may end in `#label`, under which the token is captured; a
variable captures under its name. The second sign of a pair of brackets may be missing, and what
stands behind it is ignored. -/
namespace TokenPatterns

/-- How often a pattern token may occur. -/
inductive Mark where
  | once
  | optional
  | repeated
deriving DecidableEq

/-- What a pattern token asks of a token of the text. -/
inductive Term where
  /-- The very text of the token. -/
  | literal (word : String)
  /-- Any token, captured under the name. -/
  | variable (name : String)
  /-- A part-of-speech tag of the class. -/
  | tagged (cls : String) (label : Option String)
  /-- A synonym of the word. Of the names behind the word only the first one counts. -/
  | synonym (word : String) (classes : List String) (label : Option String)
deriving DecidableEq

structure PatternToken where
  term : Term
  mark : Mark
deriving DecidableEq

namespace Term

/-- Cuts a label off at the last sign `#`, unless one side of it would be empty. -/
def splitLabel (body : List Char) : List Char × Option String :=
  let label := (body.reverse.takeWhile (· ≠ '#')).reverse
  match body.reverse.dropWhile (· ≠ '#') with
  | _ :: c :: head =>
    if label.isEmpty then (body, none) else ((c :: head).reverse, some (String.ofList label))
  | _ => (body, none)

/-- The part-of-speech term with a given text inside its brackets. -/
def ofTagBody (body : List Char) : Term :=
  let (cls, label) := splitLabel body
  .tagged (String.ofList cls) label

/-- The synonym term with a given text inside its brackets. -/
def ofSynonymBody (body : List Char) : Term :=
  let (parts, label) := splitLabel body
  match (parts.splitOn '|').map String.ofList with
  | [] => .synonym "" [] label
  | word :: classes => .synonym word classes label

/-- What stands before the closing sign, or everything if there is none. -/
def enclosed (close : Char) (rest : List Char) : List Char := rest.takeWhile (· ≠ close)

def parse : List Char → Term
  | '<' :: rest => ofTagBody (enclosed '>' rest)
  | '[' :: rest => ofSynonymBody (enclosed ']' rest)
  | '$' :: rest => .variable (String.ofList rest)
  | word => .literal (String.ofList word)

/-- A label as it is written behind a term. -/
def labelText : Option String → String
  | some label => "#" ++ label
  | none => ""

/-- The text of a term, with both brackets. -/
def render : Term → String
  | literal word => word
  | .variable name => "$" ++ name
  | tagged cls label => "<" ++ cls ++ labelText label ++ ">"
  | synonym word classes label =>
    "[" ++ "|".intercalate (word :: classes) ++ labelText label ++ "]"

/-- The label under which a term captures: the name of a variable as it is, any other label with
its sign in front. -/
def capture? : Term → Option String
  | literal _ => none
  | .variable name => some name
  | tagged _ label | synonym _ _ label => label.map ("#" ++ ·)

@[simp] theorem parse_tagged (rest : List Char) :
    parse ('<' :: rest) = ofTagBody (enclosed '>' rest) := rfl

@[simp] theorem parse_synonym (rest : List Char) :
    parse ('[' :: rest) = ofSynonymBody (enclosed ']' rest) := rfl

@[simp] theorem parse_variable (rest : List Char) :
    parse ('$' :: rest) = .variable (String.ofList rest) := rfl

end Term

namespace Mark

/-- Cuts the mark off a token; a lone star or question mark is no mark. -/
def split (token : List Char) : List Char × Mark :=
  match token.reverse with
  | '*' :: c :: rest => ((c :: rest).reverse, .repeated)
  | '?' :: c :: rest => ((c :: rest).reverse, .optional)
  | _ => (token, .once)

/-- The sign of a mark. -/
def render : Mark → String
  | once => ""
  | optional => "?"
  | repeated => "*"

end Mark

namespace PatternToken

def parse (token : List Char) : PatternToken :=
  let (body, mark) := Mark.split token
  ⟨Term.parse body, mark⟩

/-- The text of a token. -/
def render (t : PatternToken) : String := t.term.render ++ t.mark.render

/-- Whether a match must contain the token. -/
def isMandatory (t : PatternToken) : Bool := t.mark == .once

end PatternToken

/-- The tokens of a pattern. -/
def tokensOf (pattern : String) : List PatternToken :=
  (Letter.words pattern.toList).map PatternToken.parse

/-- The tokens of two patterns with a blank between them. -/
theorem tokensOf_append (pattern more : String) :
    tokensOf (pattern ++ " " ++ more) = tokensOf pattern ++ tokensOf more := by
  have htext : (pattern ++ " " ++ more).toList = pattern.toList ++ ' ' :: more.toList := by
    rw [String.toList_append, String.toList_append, List.append_assoc]
    rfl
  rw [tokensOf, htext, Letter.words_append (by decide), List.map_append]
  rfl

end TokenPatterns
