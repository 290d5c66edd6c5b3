import TokenPatterns.Letter.Case

/-! Lower-casing of a text.

Every character is put into lower case by itself, with one exception: a capital sigma becomes a
final sigma where it ends a word, that is, where a letter with case comes before it and none comes
after it, ignorable characters aside. -/
namespace TokenPatterns.Letter

/-- Whether the first character that is not ignorable has case. -/
def startsCased (cs : List Char) : Bool :=
  match cs.dropWhile isCaseIgnorable with
  | [] => false
  | c :: _ => isCased c

/-- Lower case of the second list, where the first holds the characters before it, last first. -/
def lowerAfter : (before : List Char) → List Char → List Char
  | _, [] => []
  | before, c :: cs =>
    (if c = 'Σ' then [if startsCased before && !startsCased cs then 'ς' else 'σ'] else lowerChar c)
      ++ lowerAfter (c :: before) cs

def lower (cs : List Char) : List Char := lowerAfter [] cs

end TokenPatterns.Letter

namespace TokenPatterns

/-- A string in lower case. -/
def lowerCase (s : String) : String := String.ofList (Letter.lower s.toList)

end TokenPatterns
