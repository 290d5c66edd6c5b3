/-! Tokens of a text.

A token is a piece of text together with the position it was given when it was put into a text;
a token that is in no text yet has position 0. -/
namespace TokenPatterns

structure TextToken where
  text : String
  index : Nat
deriving DecidableEq

namespace TextToken

/-- A token that is in no text yet. -/
def ofWord (word : String) : TextToken := ⟨word, 0⟩

/-- The length of the token's text in bytes. -/
def byteSize (t : TextToken) : Nat := t.text.utf8ByteSize

def isEmpty (t : TextToken) : Bool := t.text.isEmpty

end TextToken
end TokenPatterns
