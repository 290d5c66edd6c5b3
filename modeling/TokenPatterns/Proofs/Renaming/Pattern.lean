import TokenPatterns.Proofs.Grammar

/-! Renaming the variables of a pattern.

A renaming gives every name of a variable another one and keeps their order. It rewrites the words of
a pattern that stand for variables; the other words, the marks and the blanks stay. The pattern is
then read as the same tokens with the variables renamed (`Renaming.tokensOf_pattern`). -/
namespace TokenPatterns

/-! ### Rewriting words -/

namespace Letter

/-- A word, rewritten if there is one. -/
def onWord (f : List Char → List Char) (word : List Char) : List Char :=
  if word.isEmpty then [] else f word

/-- A text with its words rewritten and its blanks as they are, behind the word that was read last. -/
def mapWordsFrom (f : List Char → List Char) : (word : List Char) → List Char → List Char
  | word, [] => onWord f word
  | word, c :: cs =>
    if isBlank c then onWord f word ++ c :: mapWordsFrom f [] cs else mapWordsFrom f (word ++ [c]) cs

/-- A text with its words rewritten and its blanks as they are. -/
def mapWords (f : List Char → List Char) (cs : List Char) : List Char := mapWordsFrom f [] cs

/-- Whether a text is a word: not empty and without blanks. -/
def IsWord (word : List Char) : Prop := word ≠ [] ∧ ∀ c ∈ word, isBlank c = false

theorem words_onWord {f : List Char → List Char} {word : List Char}
    (hword : ∀ c ∈ word, isBlank c = false) (hf : ∀ w ∈ words word, IsWord (f w)) :
    words (onWord f word) = (words word).map f := by
  by_cases hne : word = []
  · subst hne
    rfl
  · have hwords := words_of_not_blank hne hword
    obtain ⟨hfne, hfword⟩ := hf word (hwords ▸ List.mem_singleton_self word)
    rw [onWord, if_neg (by simpa using hne), words_of_not_blank hfne hfword, hwords]
    rfl

theorem words_mapWordsFrom {f : List Char → List Char} {word cs : List Char}
    (hword : ∀ c ∈ word, isBlank c = false) (hf : ∀ w ∈ words (word ++ cs), IsWord (f w)) :
    words (mapWordsFrom f word cs) = (words (word ++ cs)).map f := by
  induction cs generalizing word with
  | nil =>
    rw [List.append_nil] at hf ⊢
    exact words_onWord hword hf
  | cons c cs ih =>
    rw [mapWordsFrom]
    cases hc : isBlank c with
    | true =>
      rw [words_append hc] at hf ⊢
      rw [if_pos rfl, words_append hc, List.map_append,
        words_onWord hword fun w hw => hf w (List.mem_append_left _ hw),
        ih (fun _ hd => absurd hd List.not_mem_nil) fun w hw => hf w (List.mem_append_right _ hw)]
      rfl
    | false =>
      rw [if_neg Bool.false_ne_true]
      have happend : word ++ c :: cs = word ++ [c] ++ cs := by simp
      rw [happend] at hf ⊢
      refine ih (fun d hd => ?_) hf
      rcases List.mem_append.mp hd with hd | hd
      · exact hword d hd
      · rw [List.mem_singleton.mp hd, hc]

/-- Where words are rewritten as words, the words of the text are the rewritten ones. -/
theorem words_mapWords {f : List Char → List Char} {cs : List Char}
    (hf : ∀ w ∈ words cs, IsWord (f w)) : words (mapWords f cs) = (words cs).map f :=
  words_mapWordsFrom (fun _ hc => absurd hc List.not_mem_nil) hf

end Letter

/-! ### Names -/

/-- Whether a text can be the name of a variable with any mark behind it, and is not taken for a label:
it holds no blank, does not start with the sign of a label and does not end with that of a mark. -/
structure IsName (name : String) : Prop where
  blankless : Term.Blankless name
  unlabelled : name.toList.head? ≠ some '#'
  unmarked : ¬Mark.Ends name.toList

instance : DecidablePred IsName := fun _ => decidable_of_iff (_ ∧ _ ∧ _)
  ⟨fun ⟨h, h', h''⟩ => ⟨h, h', h''⟩, fun h => ⟨h.blankless, h.unlabelled, h.unmarked⟩⟩

/-- Whether the variables of a pattern have such names. -/
def Named (pattern : String) : Prop :=
  ∀ t ∈ tokensOf pattern, ∀ name, t.term = .variable name → IsName name

/-- New names for variables, in the order of the old ones. -/
structure Renaming where
  apply : String → String
  isName : ∀ {x : String}, IsName x → IsName (apply x)
  lt : ∀ {x y : String}, IsName x → IsName y → x < y → apply x < apply y

theorem Term.toList_render_variable (name : String) :
    (Term.variable name).render.toList = '$' :: name.toList := by
  simp [render]

/-- A variable with such a name is read back whatever mark it has. -/
theorem IsName.writable {name : String} (h : IsName name) (mark : Mark) :
    PatternToken.Writable ⟨.variable name, mark⟩ := by
  refine ⟨h.blankless, fun _ _ hends => absurd hends ?_⟩
  rw [Term.toList_render_variable]
  cases hname : name.toList with
  | nil => decide
  | cons c cs =>
    have hunmarked := h.unmarked
    rw [hname] at hunmarked
    rwa [Mark.Ends, List.getLast?_cons_cons]

namespace Renaming

variable (ρ : Renaming)

def term : Term → Term
  | .variable name => .variable (ρ.apply name)
  | t => t

def token (t : PatternToken) : PatternToken := {t with term := ρ.term t.term}

/-- A word of a pattern: one that stands for a variable is written with the new name. -/
def word (w : List Char) : List Char :=
  match (PatternToken.parse w).term with
  | .variable _ => (ρ.token (PatternToken.parse w)).render.toList
  | _ => w

/-- A pattern with its variables renamed. -/
def pattern (p : String) : String := String.ofList (Letter.mapWords ρ.word p.toList)

theorem token_of_term {t : PatternToken} (h : ∀ name, t.term ≠ .variable name) : ρ.token t = t := by
  obtain ⟨term, mark⟩ := t
  cases term with
  | «variable» name => exact absurd rfl (h name)
  | literal | tagged | synonym => rfl

theorem word_of_term {w : List Char} (h : ∀ name, (PatternToken.parse w).term ≠ .variable name) :
    ρ.word w = w := by
  rw [word]
  split
  · next name hname => exact absurd hname (h name)
  · rfl

theorem word_of_variable {w : List Char} {name : String}
    (h : (PatternToken.parse w).term = .variable name) :
    ρ.word w = (ρ.token (PatternToken.parse w)).render.toList := by
  rw [word, h]

theorem token_writable {t : PatternToken} {name : String} (h : t.term = .variable name)
    (hname : IsName name) : (ρ.token t).Writable := by
  rw [token, h]
  exact (ρ.isName hname).writable t.mark

/-- A rewritten word is a word, and it is read as the renamed token. -/
theorem parse_word {w : List Char} (hw : Letter.IsWord w)
    (h : ∀ name, (PatternToken.parse w).term = .variable name → IsName name) :
    Letter.IsWord (ρ.word w) ∧ PatternToken.parse (ρ.word w) = ρ.token (PatternToken.parse w) := by
  by_cases hvariable : ∃ name, (PatternToken.parse w).term = .variable name
  · obtain ⟨name, hname⟩ := hvariable
    have hwritable := ρ.token_writable hname (h name hname)
    obtain ⟨hne, hblankless⟩ := PatternToken.blankless_render hwritable
    rw [ρ.word_of_variable hname]
    exact ⟨⟨by simpa using hne, hblankless⟩, PatternToken.parse_render hwritable⟩
  · rw [not_exists] at hvariable
    rw [ρ.word_of_term hvariable, ρ.token_of_term hvariable]
    exact ⟨hw, rfl⟩

/-- A renamed pattern is read as the same tokens with their variables renamed. -/
theorem tokensOf_pattern {p : String} (h : Named p) :
    tokensOf (ρ.pattern p) = (tokensOf p).map ρ.token := by
  have hwords : ∀ w ∈ Letter.words p.toList, Letter.IsWord (ρ.word w) ∧
      PatternToken.parse (ρ.word w) = ρ.token (PatternToken.parse w) := fun w hw =>
    ρ.parse_word ⟨Letter.ne_nil_of_mem_words hw, fun _ hc => Letter.not_blank_of_mem_words hw hc⟩
      (h _ (List.mem_map_of_mem hw))
  rw [tokensOf, pattern, String.toList_ofList, Letter.words_mapWords fun w hw => (hwords w hw).1,
    tokensOf, List.map_map, List.map_map]
  exact List.map_congr_left fun w hw => (hwords w hw).2

end Renaming
end TokenPatterns
