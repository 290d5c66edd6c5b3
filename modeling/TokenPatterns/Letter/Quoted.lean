import TokenPatterns.Letter.Hidden

/-! Quoted text, as messages show it.

A quoted text stands between double quotes. Quotes and backslashes inside it get a backslash, four
control characters are shown by a letter, and every other character without a printed form by the
digits of its code point. -/
namespace TokenPatterns.Letter

/-- A code point in braces, in the fewest hexadecimal digits. -/
def codePoint (c : Char) : List Char :=
  "\\u\x7b".toList ++ Nat.toDigits 16 c.toNat ++ ['\x7d']

/-- A character as it stands inside a quoted text. -/
def quotedChar (c : Char) : List Char :=
  match c with
  | '"' => ['\\', '"']
  | '\\' => ['\\', '\\']
  | '\n' => ['\\', 'n']
  | '\r' => ['\\', 'r']
  | '\t' => ['\\', 't']
  | '\x00' => ['\\', '0']
  | c => if isHidden c then codePoint c else [c]

def quoted (cs : List Char) : List Char := ['"'] ++ cs.flatMap quotedChar ++ ['"']

end TokenPatterns.Letter

namespace TokenPatterns

/-- A string in quotes. -/
def quote (s : String) : String := String.ofList (Letter.quoted s.toList)

end TokenPatterns
