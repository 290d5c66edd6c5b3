import TokenPatterns.Tag

/-! Layers of taggings.

A tagging attaches one tag code to one position of a text. A layer is a sequence of
taggings in the order of their insertion, each of them linked to its neighbours: `add` gives
the new tagging its own links, whatever links it came with, and repairs the one of the
tagging before it. -/
namespace TokenPatterns

/-- One tag code at one position of a text, with its links to the neighbours in its layer. -/
structure Tagging where
  level : Level
  textIndex : Nat
  label : Int8
  previous : Option Nat
  next : Option Nat
deriving DecidableEq

namespace Tagging

/-- An unlinked tagging with a bare code, of the level of parts of speech. -/
def ofCode (textIndex : Nat) (label : Int8) : Tagging := ⟨.pos, textIndex, label, none, none⟩

/-- An unlinked tagging with the code that its level gives to a tag, if it knows the tag. -/
def ofTag? (level : Level) (textIndex : Nat) (tag : String) : Option Tagging :=
  (level.code? tag).map fun label => ⟨level, textIndex, label, none, none⟩

/-- The tag for which the tagging's code stands at its level. -/
def tag? (a : Tagging) : Option String := a.level.tag? a.label

/-- A tagging is shown as its tag, and as nothing if it has none. -/
def shown (a : Tagging) : String := a.tag?.getD ""

end Tagging

/-- Taggings in the order of their insertion. -/
structure Layer where
  taggings : Array Tagging
deriving DecidableEq

namespace Layer

def empty : Layer := ⟨#[]⟩

def size (layer : Layer) : Nat := layer.taggings.size

def isEmpty (layer : Layer) : Bool := layer.taggings.isEmpty

/-- Appends a tagging: it is linked to the one before it and to none after it. -/
def add (layer : Layer) (a : Tagging) : Layer :=
  let position := layer.size
  ⟨(layer.taggings.modify (position - 1) fun last => {last with next := some position}).push
    {a with previous := if position = 0 then none else some (position - 1), next := none}⟩

def ofList (as : List Tagging) : Layer := as.foldl add empty

def first? (layer : Layer) : Option Tagging := layer.taggings[0]?

def get? (layer : Layer) (position : Nat) : Option Tagging := layer.taggings[position]?

/-- The tagging to which a link to the next one leads in this layer. -/
def nextOf (layer : Layer) (a : Tagging) : Option Tagging := a.next.bind layer.get?

/-- The tagging to which a link to the previous one leads in this layer. -/
def previousOf (layer : Layer) (a : Tagging) : Option Tagging := a.previous.bind layer.get?

def toList (layer : Layer) : List Tagging := layer.taggings.toList

/-- The taggings at a position of the text. -/
def atIndex (layer : Layer) (textIndex : Nat) : List Tagging :=
  layer.toList.filter (·.textIndex == textIndex)

/-- The taggings with a given code. -/
def withLabel (layer : Layer) (label : Int8) : List Tagging :=
  layer.toList.filter (·.label == label)

/-- The layer with every tagging moved to a level; links stay as they are. -/
def stamp (level : Level) (layer : Layer) : Layer :=
  ⟨layer.taggings.map fun a => {a with level}⟩

@[simp] theorem size_empty : empty.size = 0 := rfl

@[simp] theorem size_add (layer : Layer) (a : Tagging) : (layer.add a).size = layer.size + 1 := by
  simp [add, size]

@[simp] theorem size_stamp (level : Level) (layer : Layer) : (layer.stamp level).size = layer.size := by
  simp [stamp, size]

end Layer
end TokenPatterns
