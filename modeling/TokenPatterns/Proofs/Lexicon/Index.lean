import TokenPatterns.Lexicon.Backend
import TokenPatterns.Proofs.Lexicon.Keys
import TokenPatterns.Proofs.Lexicon.Senses

/-! The index of a thesaurus.

A thesaurus that was filled synset by synset answers each question with the identifiers of just those
synsets that were added for it (`Thesaurus.mem_synsets`). Its index has a place for each word of a
language in lower case, however often the word was added (`Thesaurus.keySet_senses`). Entries are
added in the same way, unless one of them has an unknown class; then the first such entry is named
(`Thesaurus.ofEntries_of_find?`). -/
namespace TokenPatterns

/-! ### Entries -/

namespace WordClass

/-- The codes of the word classes. -/
def codes : List String := ["a", "r", "n", "v"]

theorem eq_code_of_ofCode? {code : String} {c : WordClass} (h : ofCode? code = some c) :
    code = String.singleton c.code := by
  unfold ofCode? at h
  split at h <;> cases h <;> rfl

theorem mem_codes_iff {code : String} : code ∈ codes ↔ ∃ c, ofCode? code = some c := by
  constructor
  · intro h
    rcases (by simpa [codes] using h : code = "a" ∨ code = "r" ∨ code = "n" ∨ code = "v") with
      rfl | rfl | rfl | rfl
    · exact ⟨adjective, rfl⟩
    · exact ⟨adverb, rfl⟩
    · exact ⟨noun, rfl⟩
    · exact ⟨verb, rfl⟩
  · rintro ⟨c, h⟩
    rw [eq_code_of_ofCode? h]
    cases c <;> decide

end WordClass

/-- A synset as an entry lists it. -/
def Synset.entry (s : Synset) : SynsetEntry :=
  {id := s.id, pos := String.singleton s.cls.code, language := s.language, words := s.words}

/-- Entries with known classes list synsets. -/
theorem Synset.exists_entries {entries : List SynsetEntry} (h : ∀ e ∈ entries, e.pos ∈ WordClass.codes) :
    ∃ synsets : List Synset, synsets.map Synset.entry = entries := by
  induction entries with
  | nil => exact ⟨[], rfl⟩
  | cons e entries ih =>
    obtain ⟨synsets, hsynsets⟩ := ih fun e he => h e (List.mem_cons_of_mem _ he)
    obtain ⟨c, hc⟩ := WordClass.mem_codes_iff.mp (h e List.mem_cons_self)
    refine ⟨⟨e.language, c, e.id, e.words⟩ :: synsets, ?_⟩
    rw [List.map_cons, hsynsets, entry, ← WordClass.eq_code_of_ofCode? hc]

namespace Thesaurus

/-- The entries of some synsets are added as these synsets are; so are those in front of others. -/
theorem addEntries_append (t : Thesaurus) (synsets : List Synset) (rest : List SynsetEntry) :
    t.addEntries (synsets.map Synset.entry ++ rest) =
      (synsets.foldl (fun t s => t.add s.language s.cls s.id s.words) t).addEntries rest := by
  induction synsets generalizing t with
  | nil => rfl
  | cons s synsets ih =>
    rw [List.map_cons, List.cons_append, addEntries, Synset.entry]
    simp only [WordClass.ofCode?_code]
    exact ih _

theorem ofEntries_entries (scope : String) (synsets : List Synset) :
    ofEntries scope (synsets.map Synset.entry) = .ok (ofSynsets scope synsets) := by
  have h := addEntries_append {scope} synsets []
  rw [List.append_nil] at h
  exact h

/-- The first entry with an unknown class is the one that the error names. -/
theorem ofEntries_of_find? (scope : String) {entries : List SynsetEntry} {e : SynsetEntry}
    (h : entries.find? (·.pos ∉ WordClass.codes) = some e) :
    ofEntries scope entries = .error (.unknownWordClass e.pos e.id) := by
  obtain ⟨he, known, rest, rfl, hknown⟩ := List.find?_eq_some_iff_append.mp h
  obtain ⟨synsets, rfl⟩ := Synset.exists_entries fun e he => by simpa using hknown e he
  have hunknown : WordClass.ofCode? e.pos = none := by
    rw [decide_eq_true_iff, WordClass.mem_codes_iff, not_exists] at he
    exact Option.eq_none_iff_forall_ne_some.mpr he
  rw [ofEntries, addEntries_append, addEntries, hunknown]

/-! ### Answers -/

/-- The answer to a question, synset by synset. -/
theorem mem_synsets_iff {scope : String} {synsets : List Synset} {q : Query} {i : SynsetId} :
    i ∈ (ofSynsets scope synsets).synsets q ↔
      ∃ s ∈ synsets, s.language = q.language ∧ s.cls ∈ q.classes ∧
        (∃ word ∈ s.words, lowerCase word = lowerCase q.word) ∧
        i = SynsetId.of scope (some s.cls) s.id := by
  rw [mem_synsets]
  constructor
  · rintro ⟨sense, hsense, rfl⟩
    obtain ⟨⟨s, hs, ⟨hlanguage, hword⟩, rfl⟩, hcls⟩ := Synset.mem_senses.mp hsense
    refine ⟨s, hs, hlanguage, hcls, hword, ?_⟩
    rw [synsetId, scope_ofSynsets, Synset.sense]
  · rintro ⟨s, hs, hlanguage, hcls, hword, rfl⟩
    refine ⟨s.sense, Synset.mem_senses.mpr ⟨⟨s, hs, ⟨hlanguage, hword⟩, rfl⟩, hcls⟩, ?_⟩
    rw [synsetId, scope_ofSynsets, Synset.sense]

/-! ### Counts -/

theorem keySet_alter_withSense (senses : Std.ExtTreeMap IndexWord (List Sense)) (key : IndexWord)
    (sense : Sense) : keySet (senses.alter key (withSense sense)) = insert key (keySet senses) := by
  have hsome : ∀ senses? : Option (List Sense), (withSense sense senses?).isSome = true := by
    intro senses?
    cases senses? <;> rfl
  ext other
  simp only [mem_keySet, Std.ExtTreeMap.mem_alter, Std.compare_eq_iff_eq, Finset.mem_insert]
  split
  · next h => exact iff_of_true (hsome _) (.inl h.symm)
  · next h => exact (or_iff_right fun heq => h heq.symm).symm

theorem keySet_foldl_alter (senses : Std.ExtTreeMap IndexWord (List Sense)) (language : String)
    (words : List String) (sense : Sense) :
    keySet (words.foldl
        (fun senses word => senses.alter (IndexWord.of language word) (withSense sense)) senses) =
      (words.map (IndexWord.of language)).toFinset ∪ keySet senses := by
  induction words generalizing senses with
  | nil => exact (Finset.empty_union _).symm
  | cons word words ih =>
    rw [List.foldl_cons, ih, keySet_alter_withSense, List.map_cons, List.toFinset_cons,
      Finset.insert_union, Finset.union_insert]

/-- The words of some synsets, in lower case and each with its language. -/
def indexWords (synsets : List Synset) : List IndexWord :=
  synsets.flatMap fun s => s.words.map fun word => ⟨s.language, lowerCase word⟩

/-- The index has a place for each word of the synsets. -/
theorem keySet_senses (scope : String) (synsets : List Synset) :
    keySet (ofSynsets scope synsets).senses = (indexWords synsets).toFinset := by
  induction synsets using List.reverseRecOn with
  | nil => exact keySet_empty
  | append_singleton synsets s ih =>
    rw [ofSynsets_concat, add, keySet_foldl_alter, ih, indexWords, indexWords, List.flatMap_append,
      List.flatMap_singleton, List.toFinset_append, Finset.union_comm]
    rfl

theorem synsetCount_ofSynsets (scope : String) (synsets : List Synset) :
    (ofSynsets scope synsets).synsetCount = synsets.length := by
  induction synsets using List.reverseRecOn with
  | nil => rfl
  | append_singleton synsets s ih =>
    rw [ofSynsets_concat, List.length_append, ← ih]
    rfl

/-- The index of a thesaurus is what was added to it. A question is answered with the identifiers of
those synsets of its language that have one of its classes and a word with its lower-case form, and
no two senses have one identifier. The counts are those of the different words, letter case aside,
and of the synsets. Entries whose classes are all known give the thesaurus of the synsets that they
list; any other entries give the error that names the first one whose class is not known. -/
theorem index_exact (scope : String) (synsets : List Synset) (entries : List SynsetEntry) :
    let t := ofSynsets scope synsets
    let identifier (c : WordClass) (id : String) := SynsetId.of scope (some c) id
    (∀ q, ∃ ids, (Backend.ofThesaurus t).lookup q = .ok ids ∧
      ∀ i, i ∈ ids ↔ ∃ s ∈ synsets, s.language = q.language ∧ s.cls ∈ q.classes ∧
        (∃ word ∈ s.words, lowerCase word = lowerCase q.word) ∧
        i = identifier s.cls s.id) ∧
    (∀ c d id id', (c, id) ≠ (d, id') → identifier c id ≠ identifier d id') ∧
    t.wordCount = (indexWords synsets).toFinset.card ∧ t.synsetCount = synsets.length ∧
    ((∃ t', ofEntries scope entries = .ok t') ↔ ∀ e ∈ entries, e.pos ∈ ["a", "r", "n", "v"]) ∧
    (∀ t', ofEntries scope entries = .ok t' →
      ∃ listed : List Synset, listed.map Synset.entry = entries ∧ t' = ofSynsets scope listed) ∧
    ∀ e, entries.find? (·.pos ∉ ["a", "r", "n", "v"]) = some e →
      ∃ error : Error, ofEntries scope entries = .error error ∧
        error.message =
          "Dictionary error: Unknown word class '" ++ e.pos ++ "' in synset " ++ e.id := by
  intro t identifier
  have hknown : (∀ e ∈ entries, e.pos ∈ WordClass.codes) → ∃ listed : List Synset,
      listed.map Synset.entry = entries ∧ ofEntries scope entries = .ok (ofSynsets scope listed) := by
    intro h
    obtain ⟨listed, rfl⟩ := Synset.exists_entries h
    exact ⟨listed, rfl, ofEntries_entries scope listed⟩
  have hunknown : (∃ t', ofEntries scope entries = .ok t') → ∀ e ∈ entries, e.pos ∈ WordClass.codes := by
    rintro ⟨t', ht'⟩
    cases hfind : entries.find? (·.pos ∉ WordClass.codes) with
    | none => simpa using hfind
    | some e =>
      rw [ofEntries_of_find? scope hfind] at ht'
      cases ht'
  refine ⟨fun q => ⟨t.synsets q, rfl, fun i => mem_synsets_iff⟩, ?_, ?_,
    synsetCount_ofSynsets scope synsets, ⟨hunknown, fun h => ?_⟩, ?_, ?_⟩
  · rintro c d id id' hne heq
    obtain ⟨rfl, rfl⟩ := SynsetId.of_some_injective heq
    exact hne rfl
  · rw [wordCount, ← card_keySet, keySet_senses]
  · obtain ⟨listed, _, hlisted⟩ := hknown h
    exact ⟨_, hlisted⟩
  · intro t' ht'
    obtain ⟨listed, hentries, hlisted⟩ := hknown (hunknown ⟨t', ht'⟩)
    exact ⟨listed, hentries, Except.ok.inj (ht'.symm.trans hlisted)⟩
  · intro e he
    exact ⟨_, ofEntries_of_find? scope he, rfl⟩

/-- Words that several synsets share, up to letter case, and entries with and without an unknown
class. -/
theorem index_exact_overlapping :
    let synsets : List Synset := [⟨"en", .adverb, "1", ["Well", "good"]⟩,
      ⟨"en", .adjective, "1", ["good"]⟩, ⟨"fr", .adverb, "2", ["good"]⟩, ⟨"en", .adverb, "1", ["WELL"]⟩]
    let t := ofSynsets "wn" synsets
    let known : List SynsetEntry := [⟨"1", "r", "en", ["well"]⟩, ⟨"2", "n", "en", []⟩]
    let unknown : List SynsetEntry :=
      [⟨"1", "r", "en", ["well"]⟩, ⟨"2", "x", "en", []⟩, ⟨"3", "", "en", []⟩]
    (∃ ids, (Backend.ofThesaurus t).lookup ⟨"en", "wELL", [.noun, .adverb]⟩ = .ok ids ∧
      "wn~r#1" ∈ ids ∧ "wn~a#1" ∉ ids) ∧
    SynsetId.of "wn" (some .adverb) "1" ≠ SynsetId.of "wn" (some .adjective) "1" ∧
    t.wordCount = 3 ∧ t.synsetCount = 4 ∧
    (∃ listed : List Synset, listed.map Synset.entry = known ∧
      ofEntries "wn" known = .ok (ofSynsets "wn" listed)) ∧
    ∃ error : Error, ofEntries "wn" unknown = .error error ∧
      error.message = "Dictionary error: Unknown word class 'x' in synset 2" := by
  intro synsets t known unknown
  obtain ⟨hanswer, hdistinct, hwords, hsynsets, hok, hlisted, _⟩ := index_exact "wn" synsets known
  obtain ⟨_, _, _, _, _, _, herror⟩ := index_exact "wn" synsets unknown
  obtain ⟨ids, hids, hmem⟩ := hanswer ⟨"en", "wELL", [.noun, .adverb]⟩
  refine ⟨⟨ids, hids, ?_, ?_⟩, hdistinct _ _ _ _ (by decide), ?_, hsynsets, ?_, ?_⟩
  · refine (hmem _).mpr ⟨⟨"en", .adverb, "1", ["Well", "good"]⟩, ?_⟩
    decide +kernel
  · rw [hmem]
    decide +kernel
  · rw [hwords]
    decide +kernel
  · obtain ⟨t', ht'⟩ := hok.mpr (by decide)
    obtain ⟨listed, hentries, rfl⟩ := hlisted t' ht'
    exact ⟨listed, hentries, ht'⟩
  · exact herror ⟨"2", "x", "en", []⟩ (by decide)

end Thesaurus
end TokenPatterns
