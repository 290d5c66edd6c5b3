import TokenPatterns.Error
import TokenPatterns.Letter.Lower
import TokenPatterns.Lexicon.Inquiry

/-! Thesauri: dictionaries that list synsets.

A synset has an identifier, a word class, a language and the words it groups. A thesaurus keeps,
for each language and each word in lower case, the senses of the word: the class and identifier of
every synset in which it is. Words are looked up in lower case. -/
namespace TokenPatterns

/-- A synset as it is listed, its class by its code. -/
structure SynsetEntry where
  id : String
  pos : String
  language : String
  words : List String
deriving DecidableEq

namespace SynsetEntry

/-- The language of an entry that names none. -/
def defaultLanguage : String := "en"

end SynsetEntry

/-- A word of a language, in the form in which it is looked up. -/
structure IndexWord where
  language : String
  word : String
deriving DecidableEq

namespace IndexWord

instance : Keyed IndexWord where
  key w := [w.language, w.word]
  key_injective {a b} h := by cases a; cases b; simp_all

/-- Words are looked up in lower case. -/
def of (language word : String) : IndexWord := ⟨language, lowerCase word⟩

end IndexWord

/-- The class and the identifier of a synset. -/
abbrev Sense := WordClass × String

structure Thesaurus where
  /-- What the identifiers of this thesaurus begin with. -/
  scope : String
  senses : Std.ExtTreeMap IndexWord (List Sense) := ∅
  synsetCount : Nat := 0

namespace Thesaurus

/-- The senses of a word, each once, with one more. -/
def withSense (sense : Sense) : Option (List Sense) → Option (List Sense)
  | none => some [sense]
  | some senses => some (if sense ∈ senses then senses else senses ++ [sense])

/-- Adds a synset that groups some words of a language. -/
def add (t : Thesaurus) (language : String) (cls : WordClass) (id : String) (words : List String) :
    Thesaurus :=
  {t with
    senses := words.foldl
      (fun senses word => senses.alter (IndexWord.of language word) (withSense (cls, id))) t.senses
    synsetCount := t.synsetCount + 1}

/-- The number of words with senses, counted by language. -/
def wordCount (t : Thesaurus) : Nat := t.senses.size

/-- The senses of a word, whatever their classes. -/
def sensesOf (t : Thesaurus) (language word : String) : List Sense :=
  (t.senses[IndexWord.of language word]?).getD []

/-- How the thesaurus names the synset of a sense. -/
def synsetId (t : Thesaurus) (sense : Sense) : SynsetId :=
  SynsetId.of t.scope (some sense.1) sense.2

/-- The synsets of the senses of a word whose class is among those asked for. -/
def synsets (t : Thesaurus) (q : Query) : SynsetSet :=
  SynsetSet.ofList (((t.sensesOf q.language q.word).filter (q.classes.contains ·.1)).map t.synsetId)

/-- Adds entries in order, up to the first one whose class is unknown. -/
def addEntries (t : Thesaurus) : List SynsetEntry → Except Error Thesaurus
  | [] => .ok t
  | e :: es =>
    match WordClass.ofCode? e.pos with
    | some cls => (t.add e.language cls e.id e.words).addEntries es
    | none => .error (.unknownWordClass e.pos e.id)

/-- The thesaurus of some entries. -/
def ofEntries (scope : String) (entries : List SynsetEntry) : Except Error Thesaurus :=
  addEntries {scope} entries

end Thesaurus
end TokenPatterns
