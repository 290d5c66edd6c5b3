import Std.Data.ExtTreeMap

/-! Captured variables.

Words are captured under labels while a walk goes on. The words of one run of a label are gathered
in an open buffer; when the run ends, the buffer goes behind what the label already has. All words
are separated by single spaces. -/
namespace TokenPatterns

/-- Texts by name. -/
abbrev Bindings := Std.ExtTreeMap String String

namespace Bindings

/-- The bindings of the first map with those of the second laid over them. -/
def overlay (below above : Bindings) : Bindings := below ∪ above

theorem getElem?_overlay (below above : Bindings) (name : String) :
    (below.overlay above)[name]? = (above[name]?).or below[name]? :=
  Std.ExtTreeMap.getElem?_union

/-- Puts a text behind the one that a name already has. -/
def append (bindings : Bindings) (name text : String) : Bindings :=
  bindings.alter name fun
    | some old => some (old ++ " " ++ text)
    | none => some text

end Bindings

structure Capture where
  stored : Bindings := ∅
  /-- The label of the run that is going on, with its words so far. -/
  run : Option (String × String) := none

namespace Capture

/-- Stores the run that is going on. -/
def flush (c : Capture) : Capture :=
  match c.run with
  | some (label, words) => ⟨c.stored.append label words, none⟩
  | none => c

/-- Captures a word under a label. -/
def take (c : Capture) (label word : String) : Capture :=
  match c.run with
  | some (current, words) =>
    if current = label then {c with run := some (label, words ++ " " ++ word)}
    else {c.flush with run := some (label, word)}
  | none => {c with run := some (label, word)}

/-- What happens at a word with or without a label: without one the run ends. -/
def step (c : Capture) (label? : Option String) (word : String) : Capture :=
  match label? with
  | some label => c.take label word
  | none => c.flush

/-- The variables captured from a sequence of words with their labels. -/
def bindings (labelled : List (Option String × String)) : Bindings :=
  (labelled.foldl (fun (c : Capture) (label?, word) => c.step label? word) {}).flush.stored

end Capture
end TokenPatterns
