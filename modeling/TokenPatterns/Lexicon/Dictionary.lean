import TokenPatterns.Lexicon.Backend

/-! Dictionaries composed of backends.

A dictionary answers with all the synsets that its extensions give, and asks its fallback only if
they give none. A question that leaves the class open asks for every class. -/
namespace TokenPatterns

structure Dictionary where
  extensions : List Backend
  fallback : Option Backend

namespace Dictionary

/-- The dictionary without backends. -/
def empty : Dictionary := ⟨[], none⟩

/-- The dictionary in which every word has the synset of its hash alone. -/
def identity (digits : String → String) : Dictionary :=
  ⟨[], some (Backend.identity digits Backend.defaultScope)⟩

def addExtension (d : Dictionary) (b : Backend) : Dictionary :=
  {d with extensions := d.extensions ++ [b]}

def withFallback (d : Dictionary) (b : Backend) : Dictionary := {d with fallback := some b}

def extensionCount (d : Dictionary) : Nat := d.extensions.length

/-- The question as backends are asked it: an open class is every class. -/
def posed (q : Query) : Query := if q.classes.isEmpty then {q with classes := WordClass.all} else q

theorem posed_of_isEmpty {q : Query} (h : q.classes = []) :
    posed q = {q with classes := WordClass.all} := by
  simp [posed, h]

theorem posed_of_ne_nil {q : Query} (h : q.classes ≠ []) : posed q = q := by
  simp [posed, h]

/-- All that the extensions answer. -/
def gathered (d : Dictionary) (q : Query) : SynsetSet :=
  d.extensions.foldl (fun ids b => ids ∪ b.answer q) ∅

def synsets (d : Dictionary) (q : Query) : SynsetSet :=
  let ids := d.gathered (posed q)
  if ids.isEmpty then
    match d.fallback with
    | some b => b.answer (posed q)
    | none => ∅
  else ids

/-- A dictionary answers as a lexicon: by the question alone. -/
def lexicon (d : Dictionary) : Lexicon := d.synsets

end Dictionary
end TokenPatterns
