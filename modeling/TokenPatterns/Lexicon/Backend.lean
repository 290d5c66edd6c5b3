import TokenPatterns.Lexicon.Thesaurus

/-! Backends: the parts of which a dictionary is made.

A backend answers a question with a set of synsets or with an error. Besides thesauri there is the
identity backend, which gives every word the synset that is called after its hash, and there are two
backends that need no data: one that always fails, and one that gives its words one synset per class
asked for. How words are hashed is left open: the digits of their hashes are a parameter. -/
namespace TokenPatterns

structure Backend where
  /-- The kind of the backend. -/
  name : String
  /-- What the identifiers of this backend begin with. -/
  scope : String
  lookup : Query → Except Error SynsetSet

namespace Backend

def ofThesaurus (t : Thesaurus) : Backend := ⟨"synset", t.scope, fun q => .ok (t.synsets q)⟩

/-- Every word has one synset, called after the digits of its hash, whatever the language and the
classes. -/
def identity (digits : String → String) (scope : String) : Backend :=
  ⟨"identity", scope, fun q => .ok (SynsetSet.ofList [SynsetId.of scope none (digits q.word)])⟩

/-- The number of digits of a hash. -/
def digitCount : Nat := 16

/-- The byte length of an identifier that the identity backend gives. -/
def identitySize (scope : String) : Nat := scope.utf8ByteSize + 1 + digitCount

/-- The scope of the identity backend that stands in where no dictionary is given. -/
def defaultScope : String := "default"

/-- Every lookup fails. -/
def failing (scope : String) : Backend :=
  ⟨"failing", scope, fun _ => .error (.dictionaryFailed "backend offline")⟩

/-- A listed word has one synset for each class asked for, named after the language; any other
word has none. -/
def probe (scope : String) (words : List String) : Backend :=
  ⟨"probe", scope, fun q => .ok <|
    if q.word ∈ words then
      SynsetSet.ofList (q.classes.map fun c =>
        SynsetId.of scope (some c) q.language)
    else ∅⟩

/-- What a backend contributes to an answer: nothing if it fails. -/
def answer (b : Backend) (q : Query) : SynsetSet :=
  match b.lookup q with
  | .ok ids => ids
  | .error _ => ∅

end Backend
end TokenPatterns
