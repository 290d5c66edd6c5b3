import Mathlib.Data.List.Induction
import TokenPatterns.Lexicon.Thesaurus

/-! The senses in a thesaurus.

A thesaurus that was filled synset by synset has for a word the senses of just those synsets of the
language that group it, letter case aside (`Thesaurus.mem_sensesOf_ofSynsets`). Asked for some
classes it answers with the identifiers of the senses of these classes (`Thesaurus.mem_synsets`),
and no two senses share an identifier (`SynsetId.of_some_injective`). -/
namespace TokenPatterns

/-- A synset, as it is added to a thesaurus. -/
structure Synset where
  language : String
  cls : WordClass
  id : String
  words : List String
deriving DecidableEq

namespace Synset

def sense (s : Synset) : Sense := (s.cls, s.id)

/-- Whether the synset groups a word of a language. Letter case does not count. -/
def Has (s : Synset) (language word : String) : Prop :=
  s.language = language ∧ ∃ w ∈ s.words, lowerCase w = lowerCase word

instance (s : Synset) (language word : String) : Decidable (s.Has language word) :=
  inferInstanceAs (Decidable (_ ∧ _))

/-- The senses that a word has in some classes. -/
def senses (synsets : List Synset) (language word : String) (classes : List WordClass) :
    List Sense :=
  (synsets.filter fun s => s.Has language word ∧ s.cls ∈ classes).map sense

theorem mem_senses {synsets : List Synset} {language word : String} {classes : List WordClass}
    {sense : Sense} :
    sense ∈ senses synsets language word classes ↔
      (∃ s ∈ synsets, s.Has language word ∧ s.sense = sense) ∧ sense.1 ∈ classes := by
  simp only [senses, List.mem_map, List.mem_filter, decide_eq_true_eq]
  constructor
  · rintro ⟨s, ⟨hs, hhas, hcls⟩, rfl⟩
    exact ⟨⟨s, hs, hhas, rfl⟩, hcls⟩
  · rintro ⟨⟨s, hs, hhas, rfl⟩, hcls⟩
    exact ⟨s, ⟨hs, hhas, hcls⟩, rfl⟩

end Synset

/-! ### Identifiers -/

theorem WordClass.code_injective {c d : WordClass} (h : c.code = d.code) : c = d := by
  simpa using congrArg (fun code => ofCode? (String.singleton code)) h

namespace SynsetId

theorem toList_of_some (scope : String) (c : WordClass) (id : String) :
    (of scope (some c) id).toList = scope.toList ++ '~' :: c.code :: '#' :: id.toList := by
  simp [of]

/-- Within one scope an identifier tells the class and the synset. -/
theorem of_some_injective {scope id id' : String} {c c' : WordClass}
    (h : of scope (some c) id = of scope (some c') id') : c = c' ∧ id = id' := by
  have hlist := congrArg String.toList h
  rw [toList_of_some, toList_of_some, List.append_cancel_left_eq] at hlist
  simp only [List.cons.injEq, true_and] at hlist
  exact ⟨WordClass.code_injective hlist.1, String.toList_inj.mp hlist.2⟩

end SynsetId

/-! ### Thesauri filled synset by synset -/

namespace Thesaurus

theorem synsetId_injective {t : Thesaurus} {a b : Sense} (h : t.synsetId a = t.synsetId b) : a = b := by
  obtain ⟨hcls, hid⟩ := SynsetId.of_some_injective h
  exact Prod.ext hcls hid

/-- The senses of a word, each once, and one more. -/
theorem mem_withSense (sense other : Sense) (senses? : Option (List Sense)) :
    other ∈ (withSense sense senses?).getD [] ↔ other = sense ∨ other ∈ senses?.getD [] := by
  cases senses? with
  | none => simp [withSense]
  | some senses =>
    by_cases hmem : sense ∈ senses
    · simp only [withSense, if_pos hmem, Option.getD_some]
      exact ⟨.inr, fun h => h.elim (fun heq => heq ▸ hmem) id⟩
    · simp only [withSense, if_neg hmem, Option.getD_some, List.mem_append, List.mem_singleton]
      exact or_comm

/-- A sense that is put under a word is one of this word and of no other one. -/
theorem mem_alter_withSense (senses : Std.ExtTreeMap IndexWord (List Sense)) (key other : IndexWord)
    (sense x : Sense) :
    x ∈ ((senses.alter key (withSense sense))[other]?).getD [] ↔
      (key = other ∧ x = sense) ∨ x ∈ (senses[other]?).getD [] := by
  rw [Std.ExtTreeMap.getElem?_alter]
  simp only [Std.compare_eq_iff_eq]
  by_cases h : key = other
  · subst h
    rw [if_pos rfl, mem_withSense]
    simp only [true_and]
  · rw [if_neg h]
    simp only [h, false_and, false_or]

theorem mem_foldl_alter (senses : Std.ExtTreeMap IndexWord (List Sense)) (language : String)
    (words : List String) (other : IndexWord) (sense x : Sense) :
    x ∈ ((words.foldl (fun senses word =>
        senses.alter (IndexWord.of language word) (withSense sense)) senses)[other]?).getD [] ↔
      ((∃ word ∈ words, IndexWord.of language word = other) ∧ x = sense) ∨
        x ∈ (senses[other]?).getD [] := by
  induction words generalizing senses with
  | nil => simp
  | cons word words ih =>
    rw [List.foldl_cons, ih, mem_alter_withSense]
    simp only [List.mem_cons, or_and_right, exists_or, exists_eq_left]
    exact or_left_comm.trans or_assoc.symm

/-- With a synset its words gain its sense. -/
theorem mem_sensesOf_add (t : Thesaurus) (s : Synset) (language word : String) (x : Sense) :
    x ∈ (t.add s.language s.cls s.id s.words).sensesOf language word ↔
      (s.Has language word ∧ s.sense = x) ∨ x ∈ t.sensesOf language word := by
  have hkey : (∃ w ∈ s.words, IndexWord.of s.language w = IndexWord.of language word) ↔
      s.Has language word := by
    simp only [IndexWord.of, IndexWord.mk.injEq, Synset.Has]
    exact ⟨fun ⟨w, hw, hlanguage, hcase⟩ => ⟨hlanguage, w, hw, hcase⟩,
      fun ⟨hlanguage, w, hw, hcase⟩ => ⟨w, hw, hlanguage, hcase⟩⟩
  rw [← hkey, eq_comm (a := s.sense)]
  exact mem_foldl_alter ..

/-- The thesaurus of some synsets, added in order. -/
def ofSynsets (scope : String) (synsets : List Synset) : Thesaurus :=
  synsets.foldl (fun t s => t.add s.language s.cls s.id s.words) {scope}

theorem ofSynsets_concat (scope : String) (synsets : List Synset) (s : Synset) :
    ofSynsets scope (synsets ++ [s]) =
      (ofSynsets scope synsets).add s.language s.cls s.id s.words := by
  rw [ofSynsets, List.foldl_append]
  rfl

@[simp] theorem scope_ofSynsets (scope : String) (synsets : List Synset) :
    (ofSynsets scope synsets).scope = scope := by
  induction synsets using List.reverseRecOn with
  | nil => rfl
  | append_singleton synsets s ih => rw [ofSynsets_concat]; exact ih

/-- The senses of a word are those of the synsets that group it. -/
theorem mem_sensesOf_ofSynsets {scope : String} {synsets : List Synset} {language word : String}
    {x : Sense} :
    x ∈ (ofSynsets scope synsets).sensesOf language word ↔
      ∃ s ∈ synsets, s.Has language word ∧ s.sense = x := by
  induction synsets using List.reverseRecOn with
  | nil => simp [ofSynsets, sensesOf]
  | append_singleton synsets s ih =>
    rw [ofSynsets_concat, mem_sensesOf_add, ih]
    simp only [List.mem_append, List.mem_singleton, or_and_right, exists_or, exists_eq_left]
    exact or_comm

/-- The answer to a question: the identifiers of the senses of the word in the classes asked for. -/
theorem mem_synsets {scope : String} {synsets : List Synset} {q : Query} {id : SynsetId} :
    id ∈ (ofSynsets scope synsets).synsets q ↔
      ∃ sense ∈ Synset.senses synsets q.language q.word q.classes,
        id = (ofSynsets scope synsets).synsetId sense := by
  simp only [Thesaurus.synsets, SynsetSet.mem_ofList, List.mem_map, List.mem_filter,
    mem_sensesOf_ofSynsets, List.contains_iff_mem, Synset.mem_senses, eq_comm (a := id)]

end Thesaurus
end TokenPatterns
