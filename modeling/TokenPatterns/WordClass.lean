import TokenPatterns.Tag

/-! Word classes: the four kinds of words that dictionaries tell apart. -/
namespace TokenPatterns

inductive WordClass where
  | adjective
  | adverb
  | noun
  | verb
deriving DecidableEq

namespace WordClass

/-- Every word class, in the order in which lists of classes are kept. -/
def all : List WordClass := [adjective, adverb, noun, verb]

/-- The letter that stands for a class inside the identifier of a synset. -/
def code : WordClass → Char
  | adjective => 'a'
  | adverb => 'r'
  | noun => 'n'
  | verb => 'v'

def ofCode? : String → Option WordClass
  | "a" => some adjective
  | "r" => some adverb
  | "n" => some noun
  | "v" => some verb
  | _ => none

/-- The generic part-of-speech class of the words of a class. -/
def genericName : WordClass → String
  | adjective => "JJ*"
  | adverb => "RB*"
  | noun => "NN*"
  | verb => "VB*"

def ofGenericName? : String → Option WordClass
  | "RB*" => some adverb
  | "JJ*" => some adjective
  | "NN*" => some noun
  | "VB*" => some verb
  | _ => none

/-- The name under which a class is stored. -/
def longName : WordClass → String
  | adjective => "Adjective"
  | adverb => "Adverb"
  | noun => "Noun"
  | verb => "Verb"

def ofLongName? (name : String) : Option WordClass := all.find? (·.longName == name)

theorem mem_all (c : WordClass) : c ∈ all := by cases c <;> decide

@[simp] theorem ofCode?_code (c : WordClass) : ofCode? (String.singleton c.code) = some c := by
  cases c <;> decide

@[simp] theorem ofGenericName?_genericName (c : WordClass) :
    ofGenericName? c.genericName = some c := by cases c <;> rfl

@[simp] theorem ofLongName?_longName (c : WordClass) : ofLongName? c.longName = some c := by
  cases c <;> decide

theorem longName_injective {c d : WordClass} (h : c.longName = d.longName) : c = d := by
  simpa using congrArg ofLongName? h

/-- The classes of a list in their fixed order and without repeats. -/
def normalize (classes : List WordClass) : List WordClass := all.filter classes.contains

@[simp] theorem mem_normalize {classes : List WordClass} {c : WordClass} :
    c ∈ normalize classes ↔ c ∈ classes := by
  simp [normalize, mem_all]

/-- Two lists with the same classes have one normal form. -/
theorem normalize_congr {xs ys : List WordClass} (h : ∀ c, c ∈ xs ↔ c ∈ ys) :
    normalize xs = normalize ys :=
  List.filter_congr fun c _ => by simp [h]

@[simp] theorem normalize_normalize (classes : List WordClass) :
    normalize (normalize classes) = normalize classes :=
  normalize_congr fun _ => mem_normalize

/-- The word class to which a part-of-speech code belongs. -/
def ofTagCode? (code : Int8) : Option WordClass :=
  (PartOfSpeech.genericClass? code).bind ofGenericName?

end WordClass
end TokenPatterns
