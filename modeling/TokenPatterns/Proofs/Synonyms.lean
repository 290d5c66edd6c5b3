import TokenPatterns.Pattern.Node
import TokenPatterns.Proofs.Grammar
import TokenPatterns.Proofs.Lexicon.Questions
import TokenPatterns.Proofs.Lexicon.Senses
import TokenPatterns.Proofs.Locality

/-! What a synonym term means.

The dictionary is the identity dictionary with one thesaurus. A word with senses in the classes
asked for has the identifiers of these senses, and any other word has the one that its hash gives
(`Dictionary.mem_synsets_extended`). The digits of a hash hold no tilde, and an identifier with a class
does, so that neither is taken for the other (`SynsetId.of_some_ne_of_none`). So a token is a synonym of
a word if both share a sense in the classes that the term and the tags of the token leave open, or if
neither has one and they have the same hash (`Dictionary.exists_mem_extended_iff`); where no two words
do, they are then the same word. -/
namespace TokenPatterns

/-- The senses for which a question asks. -/
def Synset.sensesFor (synsets : List Synset) (q : Query) : List Sense :=
  senses synsets q.language q.word (WordClass.orAll q.classes)

theorem Synset.senses_congr {synsets : List Synset} {language word : String} {cs ds : List WordClass}
    (h : ∀ c, c ∈ cs ↔ c ∈ ds) : senses synsets language word cs = senses synsets language word ds := by
  simp only [senses, h]

/-- The classes that the tags of a token leave open, as a dictionary is asked for them. -/
theorem Text.mem_orAll_classesAt {text : Text} {index : Nat} {c : WordClass} :
    c ∈ WordClass.orAll (text.classesAt index) ↔
      c ∈ WordClass.orAll ((text.codesAt index).filterMap WordClass.ofTagCode?) := by
  rw [classesAt_eq]
  split
  · next h => rw [h, WordClass.orAll_all, List.filterMap_nil, WordClass.orAll_nil]
  · exact WordClass.mem_orAll_congr fun _ => WordClass.mem_normalize

/-- An identifier with a class is none of a scope and a name without tildes. -/
theorem SynsetId.of_some_ne_of_none {scope scope' id id' : String} {c : WordClass}
    (hscope : '~' ∉ scope'.toList) (hid : '~' ∉ id'.toList) :
    SynsetId.of scope (some c) id ≠ SynsetId.of scope' none id' := by
  intro heq
  have hmem : '~' ∈ (SynsetId.of scope (some c) id).toList := by
    rw [SynsetId.toList_of_some]
    exact List.mem_append_right _ List.mem_cons_self
  rw [heq] at hmem
  simp [SynsetId.of, hscope, hid] at hmem

namespace Dictionary

/-- The identity dictionary with a thesaurus. -/
def extended (digits : String → String) (t : Thesaurus) : Dictionary :=
  (identity digits).addExtension (.ofThesaurus t)

section Extended

variable {digits : String → String} {scope : String} {synsets : List Synset} {q r : Query}

/-- The thesaurus gives the identifiers of the senses. -/
theorem mem_gathered_extended {id : SynsetId} :
    id ∈ (extended digits (.ofSynsets scope synsets)).gathered (posed q) ↔
      ∃ sense ∈ Synset.sensesFor synsets q,
        id = (Thesaurus.ofSynsets scope synsets).synsetId sense := by
  show id ∈ (∅ ∪ (Thesaurus.ofSynsets scope synsets).synsets (posed q) : SynsetSet) ↔ _
  rw [Std.ExtTreeSet.mem_union_iff, Thesaurus.mem_synsets, posed_eq]
  exact or_iff_right Std.ExtTreeSet.not_mem_empty

theorem isEmpty_gathered_extended :
    ((extended digits (.ofSynsets scope synsets)).gathered (posed q)).isEmpty = true ↔
      Synset.sensesFor synsets q = [] := by
  rw [SynsetSet.isEmpty_iff_forall_not_mem, List.eq_nil_iff_forall_not_mem]
  simp only [mem_gathered_extended, not_exists, not_and]
  exact ⟨fun h sense hsense => h _ sense hsense rfl, fun h _ sense hsense _ => h sense hsense⟩

/-- A word has the identifiers of its senses, or that of its hash if it has no sense. -/
theorem mem_synsets_extended {id : SynsetId} :
    id ∈ (extended digits (.ofSynsets scope synsets)).synsets q ↔
      (∃ sense ∈ Synset.sensesFor synsets q,
        id = (Thesaurus.ofSynsets scope synsets).synsetId sense) ∨
      (Synset.sensesFor synsets q = [] ∧
        id = SynsetId.of Backend.defaultScope none (digits q.word)) := by
  rw [Dictionary.synsets]
  by_cases hnone : Synset.sensesFor synsets q = []
  · rw [if_pos (isEmpty_gathered_extended.mpr hnone), hnone]
    show id ∈ SynsetSet.ofList [SynsetId.of Backend.defaultScope none (digits (posed q).word)] ↔ _
    rw [posed_eq]
    simp
  · rw [if_neg (mt isEmpty_gathered_extended.mp hnone), mem_gathered_extended]
    simp [hnone]

/-- Every word has an identifier. -/
theorem isEmpty_synsets_extended :
    ((extended digits (.ofSynsets scope synsets)).synsets q).isEmpty = false := by
  rw [Bool.eq_false_iff, Ne, SynsetSet.isEmpty_iff_forall_not_mem]
  intro hnone
  cases hsenses : Synset.sensesFor synsets q with
  | nil => exact hnone _ (mem_synsets_extended.mpr (.inr ⟨hsenses, rfl⟩))
  | cons sense _ =>
    exact hnone _ (mem_synsets_extended.mpr (.inl ⟨sense, hsenses ▸ List.mem_cons_self, rfl⟩))

/-- Two words share an identifier if they share a sense, or if neither has one and they have the same
hash. -/
theorem exists_mem_extended_iff (htilde : ∀ word, '~' ∉ (digits word).toList) :
    (∃ id, id ∈ (extended digits (.ofSynsets scope synsets)).synsets q ∧
      id ∈ (extended digits (.ofSynsets scope synsets)).synsets r) ↔
      (∃ sense ∈ Synset.sensesFor synsets q, sense ∈ Synset.sensesFor synsets r) ∨
        (Synset.sensesFor synsets q = [] ∧ Synset.sensesFor synsets r = [] ∧
          digits q.word = digits r.word) := by
  have hmixed : ∀ (sense : Sense) (word : String),
      (Thesaurus.ofSynsets scope synsets).synsetId sense ≠
        SynsetId.of Backend.defaultScope none (digits word) := fun sense word =>
    SynsetId.of_some_ne_of_none (by decide) (htilde word)
  constructor
  · rintro ⟨id, hq, hr⟩
    rcases mem_synsets_extended.mp hq with ⟨sense, hsense, rfl⟩ | ⟨hnone, rfl⟩
    · rcases mem_synsets_extended.mp hr with ⟨sense', hsense', heq⟩ | ⟨_, heq⟩
      · exact .inl ⟨sense, hsense, Thesaurus.synsetId_injective heq ▸ hsense'⟩
      · exact absurd heq (hmixed sense r.word)
    · rcases mem_synsets_extended.mp hr with ⟨sense', _, heq⟩ | ⟨hnone', heq⟩
      · exact absurd heq.symm (hmixed sense' q.word)
      · exact .inr ⟨hnone, hnone', String.append_right_inj _ |>.mp heq⟩
  · rintro (⟨sense, hq, hr⟩ | ⟨hq, hr, hhash⟩)
    · exact ⟨_, mem_synsets_extended.mpr (.inl ⟨sense, hq, rfl⟩),
        mem_synsets_extended.mpr (.inl ⟨sense, hr, rfl⟩)⟩
    · exact ⟨_, mem_synsets_extended.mpr (.inr ⟨hq, rfl⟩),
        mem_synsets_extended.mpr (.inr ⟨hr, by rw [hhash]⟩)⟩

end Extended

end Dictionary

namespace Test

/-- A term with a word, perhaps a class and perhaps a label accepts a token if both words share a
sense, the one in the class of the term and the other in the classes of the tags of the token, every
class being open where none is given; or if neither has such a sense and the words are the same. Hashes
are to tell the two words apart, and their digits to hold no tilde. -/
theorem accepts_synonym (digits : String → String) (htilde : ∀ w, '~' ∉ (digits w).toList)
    (scope : String) (synsets : List Synset) (language word : String) (cls label : Option String)
    (hword : word ≠ "" ∧ '|' ∉ word.toList ∧ '#' ∉ word.toList)
    (hcls : ∀ c ∈ cls, '|' ∉ c.toList ∧ '#' ∉ c.toList)
    (hlabel : ∀ l ∈ label, l ≠ "" ∧ '#' ∉ l.toList) (text : Text) (index : Nat) (token : TextToken)
    (htoken : text.token? index = some token)
    (hdigits : digits word = digits token.text → word = token.text) :
    let lexicon := (Dictionary.extended digits (.ofSynsets scope synsets)).lexicon
    let term := Term.ofSynonymBody (Term.synonymBody word cls label).toList
    let accepted := (((term.test language).run lexicon).accepts text index).run lexicon
    let asked := Synset.senses synsets language word
      (WordClass.orAll (cls.bind WordClass.ofGenericName?).toList)
    let own := Synset.senses synsets language token.text
      (WordClass.orAll ((text.codesAt index).filterMap WordClass.ofTagCode?))
    accepted = true ↔
      (∃ sense ∈ asked, sense ∈ own) ∨ (asked = [] ∧ own = [] ∧ word = token.text) := by
  intro lexicon term accepted asked own
  let q : Query := Term.query language word cls.toList
  let r : Query := ⟨language, token.text, text.classesAt index⟩
  have hasked : Synset.sensesFor synsets q = asked := by
    cases cls <;> rfl
  have hown : Synset.sensesFor synsets r = own :=
    Synset.senses_congr fun _ => Text.mem_orAll_classesAt
  have htest : (term.test language).run lexicon = .synonym language (lexicon q) := by
    rw [show term = _ from Term.ofSynonymBody_synonymBody hword hcls hlabel, Term.test,
      Inquiry.run_bind, Inquiry.run_lookup, Inquiry.run_pure]
  have haccepted : accepted = true ↔ ∃ id, id ∈ lexicon q ∧ id ∈ lexicon r := by
    have hne : (lexicon q).isEmpty = false := Dictionary.isEmpty_synsets_extended
    show (((term.test language).run lexicon).accepts text index).run lexicon = true ↔ _
    rw [htest, Test.accepts, htoken]
    dsimp only
    rw [hne, if_neg Bool.false_ne_true, Inquiry.run_bind, Inquiry.run_lookup, Inquiry.run_pure,
      SynsetSet.meets_iff]
    exact exists_congr fun _ => and_comm
  have hhash : digits q.word = digits r.word ↔ word = token.text := ⟨hdigits, congrArg digits⟩
  rw [haccepted]
  show (∃ id, id ∈ Dictionary.synsets _ q ∧ id ∈ Dictionary.synsets _ r) ↔ _
  rw [Dictionary.exists_mem_extended_iff htilde, hasked, hown, hhash]

/-- An adverb that shares a sense, letter case aside, and the same word as a noun, which does not. A
word without senses is a synonym of itself. -/
theorem accepts_synonym_adverb :
    let synsets : List Synset :=
      [⟨"en", .adverb, "1", ["good", "well"]⟩, ⟨"en", .noun, "2", ["well", "spring"]⟩]
    let digits (w : String) := if w = "good" then "00000000000000e1" else "00000000000000f2"
    let lexicon := (Dictionary.extended digits (.ofSynsets "wn" synsets)).lexicon
    let text := (Text.ofWords ["Well", "well", "bad"]).setLayer .pos
      (Layer.ofList [Tagging.ofCode 0 20, Tagging.ofCode 1 12])
    let accepted (word : String) (index : Nat) :=
      let term := Term.ofSynonymBody (Term.synonymBody word (some "RB*") (some "how")).toList
      (((term.test "en").run lexicon).accepts text index).run lexicon
    text.token? 0 = some ⟨"Well", 0⟩ ∧ accepted "good" 0 = true ∧ ¬accepted "good" 1 = true ∧
      accepted "bad" 2 = true := by
  intro synsets digits lexicon text accepted
  have hcls : ∀ c ∈ some "RB*", '|' ∉ c.toList ∧ '#' ∉ c.toList := by decide
  have hlabel : ∀ l ∈ some "how", l ≠ "" ∧ '#' ∉ l.toList := by decide
  have hwell : text.token? 0 = some ⟨"Well", 0⟩ := by decide +kernel
  have hnoun : text.token? 1 = some ⟨"well", 1⟩ := by decide +kernel
  have hbad : text.token? 2 = some ⟨"bad", 2⟩ := by decide +kernel
  have htilde : ∀ w, '~' ∉ (digits w).toList := by
    intro w
    by_cases hw : w = "good"
    · simp only [digits, if_pos hw]
      decide
    · simp only [digits, if_neg hw]
      decide
  refine ⟨hwell, ?_, ?_, ?_⟩
  · refine (accepts_synonym digits htilde "wn" synsets "en" "good" (some "RB*") (some "how")
      (by decide) hcls hlabel text 0 _ hwell (by decide)).mpr ?_
    decide +kernel
  · refine mt (accepts_synonym digits htilde "wn" synsets "en" "good" (some "RB*") (some "how")
      (by decide) hcls hlabel text 1 _ hnoun (by decide)).mp ?_
    decide +kernel
  · refine (accepts_synonym digits htilde "wn" synsets "en" "bad" (some "RB*") (some "how")
      (by decide) hcls hlabel text 2 _ hbad fun _ => rfl).mpr ?_
    decide +kernel

end Test
end TokenPatterns
