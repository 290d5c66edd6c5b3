import TokenPatterns.Lexicon.Dictionary

/-! Questions that are alike.

Two questions are alike if they ask for the same word in the same language and for the same set of
classes, in whatever order and however often. A cache keeps the answers of such questions in one
place, and backends are asked alike what is asked alike: a question without classes reaches them with
every class. -/
namespace TokenPatterns

namespace WordClass

/-- Some classes, or every class if there are none. -/
def orAll (classes : List WordClass) : List WordClass := if classes = [] then all else classes

theorem orAll_nil : orAll [] = all := rfl

theorem orAll_of_ne_nil {classes : List WordClass} (h : classes ≠ []) : orAll classes = classes :=
  if_neg h

theorem orAll_all : orAll all = all := orAll_of_ne_nil (List.cons_ne_nil _ _)

theorem mem_orAll_congr {xs ys : List WordClass} (h : ∀ c, c ∈ xs ↔ c ∈ ys) {c : WordClass} :
    c ∈ orAll xs ↔ c ∈ orAll ys := by
  have hnil : xs = [] ↔ ys = [] := by simp only [List.eq_nil_iff_forall_not_mem, h]
  by_cases hxs : xs = []
  · rw [hxs, hnil.mp hxs]
  · rw [orAll_of_ne_nil hxs, orAll_of_ne_nil (mt hnil.mpr hxs), h]

end WordClass

theorem Dictionary.posed_eq (q : Query) :
    posed q = {q with classes := WordClass.orAll q.classes} := by
  by_cases h : q.classes = []
  · rw [posed_of_isEmpty h, h, WordClass.orAll_nil]
  · rw [posed_of_ne_nil h, WordClass.orAll_of_ne_nil h]

/-- The same question, up to the order and the repeats of its classes. -/
structure Query.Alike (q r : Query) : Prop where
  language : q.language = r.language
  word : q.word = r.word
  classes : ∀ c, c ∈ q.classes ↔ c ∈ r.classes

namespace Query

variable {q r : Query}

/-- Questions are alike if they have one normal form. -/
theorem normalize_eq_iff : q.normalize = r.normalize ↔ q.Alike r := by
  constructor
  · intro h
    obtain ⟨hlanguage, hword, hclasses⟩ := Query.mk.inj h
    refine ⟨hlanguage, hword, fun c => ?_⟩
    rw [← WordClass.mem_normalize, hclasses, WordClass.mem_normalize]
  · intro h
    rw [normalize, normalize, h.language, h.word, WordClass.normalize_congr h.classes]

theorem Alike.posed (h : q.Alike r) : (Dictionary.posed q).Alike (Dictionary.posed r) := by
  rw [Dictionary.posed_eq, Dictionary.posed_eq]
  exact ⟨h.language, h.word, fun _ => WordClass.mem_orAll_congr h.classes⟩

end Query

/-- Questions that are alike have one answer. -/
def Lexicon.Regular (lexicon : Lexicon) : Prop := ∀ q r : Query, q.Alike r → lexicon q = lexicon r

end TokenPatterns
