/-! The levels at which a text is annotated.

A text carries at most one layer of taggings for each level: parts of speech, chunks,
named entities, semantic roles, syntax and dialogue units. A level has a number, a short name
by which it is shown, and a long name under which it is stored. -/
namespace TokenPatterns

/-- What a layer of taggings is about. -/
inductive Level where
  | pos
  | chunk
  | ner
  | semanticRole
  | parse
  | dialogueUnit
deriving DecidableEq

namespace Level

/-- Every level, by ascending number. -/
def all : List Level := [pos, chunk, ner, semanticRole, parse, dialogueUnit]

/-- The number of a level is its place among all levels. -/
def number : Level → Nat
  | pos => 0
  | chunk => 1
  | ner => 2
  | semanticRole => 3
  | parse => 4
  | dialogueUnit => 5

def ofNumber? (n : Nat) : Option Level := all[n]?

/-- The short name, by which a level is shown. -/
def name : Level → String
  | pos => "POS"
  | chunk => "CHK"
  | ner => "NER"
  | semanticRole => "SRL"
  | parse => "PSG"
  | dialogueUnit => "DUN"

def ofName? (name : String) : Option Level := all.find? (·.name == name)

/-- The long name, under which a level is stored. -/
def longName : Level → String
  | pos => "Pos"
  | chunk => "Chunk"
  | ner => "Ner"
  | semanticRole => "SemanticRole"
  | parse => "Parse"
  | dialogueUnit => "DialogueUnit"

def ofLongName? (name : String) : Option Level := all.find? (·.longName == name)

theorem mem_all (l : Level) : l ∈ all := by cases l <;> decide

@[simp] theorem ofNumber?_number (l : Level) : ofNumber? l.number = some l := by cases l <;> rfl

@[simp] theorem ofName?_name (l : Level) : ofName? l.name = some l := by cases l <;> decide

@[simp] theorem ofLongName?_longName (l : Level) : ofLongName? l.longName = some l := by
  cases l <;> decide

end Level
end TokenPatterns
