/-! White space, words and trimming.

A character is blank when it has the property White_Space, which twenty-five characters have.
The words of a text are its longest blankless pieces; trimming drops blanks at both ends. -/
namespace TokenPatterns.Letter

/-- The characters with the property White_Space. -/
def blanks : List Char :=
  ['\t', '\n', '\x0b', '\x0c', '\r', ' ', '\u0085', '\u00a0', '\u1680', '\u2000', '\u2001',
   '\u2002', '\u2003', '\u2004', '\u2005', '\u2006', '\u2007', '\u2008', '\u2009', '\u200a',
   '\u2028', '\u2029', '\u202f', '\u205f', '\u3000']

def isBlank (c : Char) : Bool := blanks.contains c

/-- No piece of a text holds a character at which the text is cut. -/
theorem not_of_mem_splitOnP {p : Char → Bool} {cs piece : List Char} (h : piece ∈ cs.splitOnP p)
    {c : Char} (hc : c ∈ piece) : p c = false := by
  induction cs generalizing piece with
  | nil =>
    rw [List.splitOnP_nil, List.mem_singleton] at h
    subst h
    cases hc
  | cons d cs ih =>
    rw [List.splitOnP_cons_eq_if_modifyHead] at h
    split at h
    · rcases List.mem_cons.1 h with rfl | h
      · cases hc
      · exact ih h hc
    · next hd =>
      obtain ⟨first, rest, hp⟩ := List.exists_cons_of_ne_nil (List.splitOnP_ne_nil p cs)
      rw [hp] at ih
      rw [hp, List.modifyHead_cons] at h
      rcases List.mem_cons.1 h with rfl | h
      · rcases List.mem_cons.1 hc with rfl | hc
        · exact Bool.eq_false_iff.2 hd
        · exact ih List.mem_cons_self hc
      · exact ih (List.mem_cons_of_mem _ h) hc

/-- The pieces between blanks, without the empty ones. -/
def words (cs : List Char) : List (List Char) :=
  (cs.splitOnP isBlank).filter (!·.isEmpty)

theorem ne_nil_of_mem_words {cs word : List Char} (h : word ∈ words cs) : word ≠ [] := by
  simp only [words, List.mem_filter] at h
  simpa using h.2

theorem not_blank_of_mem_words {cs word : List Char} (h : word ∈ words cs) {c : Char}
    (hc : c ∈ word) : isBlank c = false :=
  not_of_mem_splitOnP (List.mem_filter.1 h).1 hc

/-- A blank parts the words in front of it from those behind it. -/
theorem words_append {c : Char} (hc : isBlank c = true) (cs rest : List Char) :
    words (cs ++ c :: rest) = words cs ++ words rest := by
  rw [words, List.splitOnP_append_cons cs rest hc, List.filter_append]
  rfl

/-- A text without blanks is its only word. -/
theorem words_of_not_blank {word : List Char} (hne : word ≠ []) (h : ∀ c ∈ word, isBlank c = false) :
    words word = [word] := by
  rw [words, List.splitOnP_eq_singleton h, List.filter_cons_of_pos (by simpa using hne), List.filter_nil]

def trimStart (cs : List Char) : List Char := cs.dropWhile isBlank

def trimEnd (cs : List Char) : List Char := (trimStart cs.reverse).reverse

def trim (cs : List Char) : List Char := trimEnd (trimStart cs)

/-- Whether a text holds nothing but blanks. -/
def allBlank (cs : List Char) : Bool := cs.all isBlank

/-- Blanks in front of a text make no words. -/
theorem words_blank_append {gap : List Char} (h : allBlank gap = true) (cs : List Char) :
    words (gap ++ cs) = words cs := by
  induction gap with
  | nil => rfl
  | cons c gap ih =>
    rw [allBlank, List.all_cons, Bool.and_eq_true] at h
    exact (words_append h.1 [] (gap ++ cs)).trans (ih h.2)

/-- A word with blanks behind it, unless it is the last one, is the first word of a text. -/
theorem words_word_append {word gap rest : List Char} (hne : word ≠ [])
    (hword : ∀ c ∈ word, isBlank c = false) (hgap : allBlank gap = true)
    (hrest : gap = [] → rest = []) : words (word ++ (gap ++ rest)) = word :: words rest := by
  cases gap with
  | nil => rw [hrest rfl, List.append_nil, List.append_nil, words_of_not_blank hne hword]; rfl
  | cons c gap =>
    rw [allBlank, List.all_cons, Bool.and_eq_true] at hgap
    rw [List.cons_append, words_append hgap.1, words_of_not_blank hne hword,
      words_blank_append hgap.2]
    rfl

end TokenPatterns.Letter
