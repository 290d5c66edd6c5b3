import TokenPatterns.Keyed
import TokenPatterns.WordClass

/-! Identifiers of synsets.

A synset is a group of words with one meaning. Its identifier is a text, put together from the scope of
a dictionary, the word class if the dictionary knows it, and what the dictionary itself calls the synset. -/
namespace TokenPatterns

abbrev SynsetId := String

/-- The identifier of a synset, given its scope, its class if that is known, and what it is called. -/
def SynsetId.of (scope : String) (cls : Option WordClass) (id : String) : SynsetId :=
  match cls with
  | some c => scope ++ "~" ++ String.singleton c.code ++ "#" ++ id
  | none => scope ++ "#" ++ id

/-- Finite sets of synset identifiers. -/
abbrev SynsetSet := Std.ExtTreeSet SynsetId

namespace SynsetSet

def ofList (ids : List SynsetId) : SynsetSet := Std.ExtTreeSet.ofList ids compare

@[simp] theorem mem_ofList {ids : List SynsetId} {id : SynsetId} :
    id ∈ ofList ids ↔ id ∈ ids := by
  simp [ofList]

theorem isEmpty_iff_forall_not_mem {ids : SynsetSet} : ids.isEmpty = true ↔ ∀ id, id ∉ ids :=
  Std.ExtTreeSet.isEmpty_iff.trans Std.ExtTreeSet.eq_empty_iff_forall_not_mem

/-- Whether two sets share an identifier. -/
def meets (a b : SynsetSet) : Bool := a.toList.any (b.contains ·)

theorem meets_iff {a b : SynsetSet} : meets a b = true ↔ ∃ id, id ∈ a ∧ id ∈ b := by
  simp [meets]

end SynsetSet
end TokenPatterns
