import TokenPatterns.Pattern.Token

/-! How patterns are written.

The text in the brackets of a term may end in a label, and in a synonym term a class may stand
between the word and the label; behind a term there may be a mark, and behind that there are blanks.
What is read off a text is what was written where no part holds one of the signs that end it
(`tokensOf_spell`). -/
namespace TokenPatterns
namespace Term

/-! ### Labels -/

theorem ne_sign_of_mem_reverse {cs : List Char} (h : '#' ∉ cs) :
    ∀ c ∈ cs.reverse, decide (c ≠ '#') = true := fun _ hc =>
  decide_eq_true (ne_of_mem_of_not_mem (List.mem_reverse.mp hc) h)

theorem splitLabel_of_not_mem {body : List Char} (h : '#' ∉ body) : splitLabel body = (body, none) := by
  have hdrop : body.reverse.dropWhile (· ≠ '#') = [] := by
    rw [← List.append_nil body.reverse, List.dropWhile_append_of_pos (ne_sign_of_mem_reverse h),
      List.dropWhile_nil]
  rw [splitLabel, hdrop]

/-- The label stands behind the last sign, if there is something on both sides of it. -/
theorem splitLabel_append {head label : List Char} (hhead : head ≠ []) (hlabel : label ≠ [])
    (hsign : '#' ∉ label) :
    splitLabel (head ++ '#' :: label) = (head, some (String.ofList label)) := by
  have hreverse : (head ++ '#' :: label).reverse = label.reverse ++ '#' :: head.reverse := by simp
  have hall := ne_sign_of_mem_reverse hsign
  have htake : (head ++ '#' :: label).reverse.takeWhile (· ≠ '#') = label.reverse := by
    rw [hreverse, List.takeWhile_append_of_pos hall]
    simp
  have hdrop : (head ++ '#' :: label).reverse.dropWhile (· ≠ '#') = '#' :: head.reverse := by
    rw [hreverse, List.dropWhile_append_of_pos hall]
    simp
  obtain ⟨c, cs, hcs⟩ := List.exists_cons_of_ne_nil (mt List.reverse_eq_nil_iff.mp hhead)
  rw [splitLabel, htake, hdrop, hcs, List.reverse_reverse]
  dsimp only
  rw [if_neg (by rwa [List.isEmpty_iff]), ← hcs, List.reverse_reverse]

/-- A label is read back behind a text that is not read as if it had one itself. -/
theorem splitLabel_labelText {head : List Char} {label : Option String} (hne : head ≠ [])
    (hhead : splitLabel head = (head, none)) (hlabel : ∀ l ∈ label, l ≠ "" ∧ '#' ∉ l.toList) :
    splitLabel (head ++ (labelText label).toList) = (head, label) := by
  cases label with
  | none => rwa [labelText, String.toList_empty, List.append_nil]
  | some l =>
    obtain ⟨hl, hsign⟩ := hlabel l rfl
    have htext : (labelText (some l)).toList = '#' :: l.toList := by simp [labelText]
    rw [htext, splitLabel_append hne (by simpa using hl) hsign, String.ofList_toList]

/-! ### Synonym terms -/

/-- A class as it is written behind the word of a synonym term. -/
def classText : Option String → String
  | some cls => "|" ++ cls
  | none => ""

/-- The text in the brackets of a synonym term. -/
def synonymBody (word : String) (cls label : Option String) : String :=
  word ++ classText cls ++ labelText label

theorem splitOn_classText {word : String} {cls : Option String} (hword : '|' ∉ word.toList)
    (hcls : ∀ c ∈ cls, '|' ∉ c.toList) :
    ((word ++ classText cls).toList.splitOn '|').map String.ofList = word :: cls.toList := by
  cases cls with
  | none =>
    rw [classText, String.append_empty, List.splitOn_eq_singleton hword]
    simp
  | some c =>
    have htext : (word ++ classText (some c)).toList = word.toList ++ '|' :: c.toList := by
      simp [classText]
    rw [htext, List.splitOn_append_cons_self_of_not_mem hword, List.splitOn_eq_singleton (hcls c rfl)]
    simp

/-- A synonym term is read back as it was written. -/
theorem ofSynonymBody_synonymBody {word : String} {cls label : Option String}
    (hword : word ≠ "" ∧ '|' ∉ word.toList ∧ '#' ∉ word.toList)
    (hcls : ∀ c ∈ cls, '|' ∉ c.toList ∧ '#' ∉ c.toList)
    (hlabel : ∀ l ∈ label, l ≠ "" ∧ '#' ∉ l.toList) :
    ofSynonymBody (synonymBody word cls label).toList = .synonym word cls.toList label := by
  have hhead : '#' ∉ (word ++ classText cls).toList := by
    cases cls with
    | none => simpa [classText] using hword.2.2
    | some c => simpa [classText] using ⟨hword.2.2, (hcls c rfl).2⟩
  have hsplit : splitLabel (synonymBody word cls label).toList =
      ((word ++ classText cls).toList, label) := by
    rw [synonymBody, String.toList_append]
    exact splitLabel_labelText (by simp [hword.1]) (splitLabel_of_not_mem hhead) hlabel
  rw [ofSynonymBody, hsplit]
  dsimp only
  rw [splitOn_classText hword.2.1 fun c hc => (hcls c hc).1]

/-! ### Terms -/

/-- Whether a text holds no blanks. -/
def Blankless (s : String) : Prop := ∀ c ∈ s.toList, Letter.isBlank c = false

instance : DecidablePred Blankless := fun s => List.decidableBAll _ s.toList

theorem blankless_append {s t : String} : Blankless (s ++ t) ↔ Blankless s ∧ Blankless t := by
  simp only [Blankless, String.toList_append, List.mem_append, or_imp, forall_and]

/-- Whether a text can be a part of a term in brackets: it is not empty, and holds neither blanks nor
the closing sign nor the sign of a label. -/
structure IsPart (close : Char) (part : String) : Prop where
  ne_empty : part ≠ ""
  blankless : Blankless part
  unclosed : close ∉ part.toList
  unlabelled : '#' ∉ part.toList

instance (close : Char) : DecidablePred (IsPart close) := fun _ =>
  decidable_of_iff (_ ∧ _ ∧ _ ∧ _)
    ⟨fun ⟨h, h', hclose, hsign⟩ => ⟨h, h', hclose, hsign⟩,
      fun h => ⟨h.ne_empty, h.blankless, h.unclosed, h.unlabelled⟩⟩

/-- Whether a term can be written so that it is read back: no part of it holds a sign that has a
meaning there. The tag `#` and its class are classes though they hold the sign of a label. -/
def Writable : Term → Prop
  | literal word =>
    word ≠ "" ∧ Blankless word ∧ ∀ c ∈ word.toList.head?, c ≠ '<' ∧ c ≠ '$' ∧ c ≠ '['
  | .variable name => Blankless name
  | tagged cls label =>
    (cls = "#" ∨ cls = "#*" ∨ IsPart '>' cls) ∧ ∀ l ∈ label, IsPart '>' l
  | synonym word classes label =>
    classes.length ≤ 1 ∧ (∀ part ∈ word :: classes, IsPart ']' part ∧ '|' ∉ part.toList) ∧
      ∀ l ∈ label, IsPart ']' l

instance : DecidablePred Writable
  | literal word =>
    have : Decidable (∀ c ∈ word.toList.head?, c ≠ '<' ∧ c ≠ '$' ∧ c ≠ '[') :=
      Option.decidableForallMem _
    inferInstanceAs (Decidable (_ ∧ _))
  | .variable name => inferInstanceAs (Decidable (Blankless name))
  | tagged .. => inferInstanceAs (Decidable (_ ∧ _))
  | synonym .. => inferInstanceAs (Decidable (_ ∧ _))

/-- What stands before the closing sign. -/
theorem enclosed_append {close : Char} {body : List Char} (h : close ∉ body) (rest : List Char) :
    enclosed close (body ++ close :: rest) = body := by
  have hall : ∀ c ∈ body, decide (c ≠ close) = true := fun c hc =>
    decide_eq_true (ne_of_mem_of_not_mem hc h)
  rw [enclosed, List.takeWhile_append_of_pos hall]
  simp

theorem not_mem_labelText {close : Char} (hclose : close ≠ '#') {label : Option String}
    (h : ∀ l ∈ label, IsPart close l) : close ∉ (labelText label).toList := by
  cases label with
  | none => simp [labelText]
  | some l => simpa [labelText] using ⟨hclose, (h l rfl).unclosed⟩

/-- A class is not read as if it had a label. -/
theorem splitLabel_class {cls : String} (h : cls = "#" ∨ cls = "#*" ∨ IsPart '>' cls) :
    cls.toList ≠ [] ∧ splitLabel cls.toList = (cls.toList, none) ∧ '>' ∉ cls.toList := by
  rcases h with rfl | rfl | hpart
  · decide
  · decide
  · exact ⟨by simpa using hpart.ne_empty, splitLabel_of_not_mem hpart.unlabelled, hpart.unclosed⟩

/-- A synonym term is written with its body in brackets. -/
theorem render_synonym {word : String} {classes : List String} (h : classes.length ≤ 1)
    (label : Option String) : ∃ cls : Option String, cls.toList = classes ∧
      (synonym word classes label).render = "[" ++ synonymBody word cls label ++ "]" := by
  match classes with
  | [] => exact ⟨none, rfl, by simp [render, synonymBody, classText, String.append_assoc]⟩
  | [cls] => exact ⟨some cls, rfl, by simp [render, synonymBody, classText, String.append_assoc]⟩
  | _ :: _ :: _ => simp at h

theorem not_mem_synonymBody {word : String} {cls label : Option String} (hword : IsPart ']' word)
    (hcls : ∀ c ∈ cls, IsPart ']' c) (hlabel : ∀ l ∈ label, IsPart ']' l) :
    ']' ∉ (synonymBody word cls label).toList := by
  have hclass : ']' ∉ (classText cls).toList := by
    cases cls with
    | none => simp [classText]
    | some c => simpa [classText] using (hcls c rfl).unclosed
  rw [synonymBody, String.toList_append, String.toList_append, List.mem_append, List.mem_append,
    not_or, not_or]
  exact ⟨⟨hword.unclosed, hclass⟩, not_mem_labelText (by decide) hlabel⟩

/-- A term is read back as it was written. -/
theorem parse_render {t : Term} (h : t.Writable) : parse t.render.toList = t := by
  cases t with
  | literal word =>
    obtain ⟨hne, _, hhead⟩ := h
    rw [render]
    obtain ⟨c, cs, hword⟩ := List.exists_cons_of_ne_nil (show word.toList ≠ [] by simpa using hne)
    obtain ⟨htag, hvariable, hsynonym⟩ := hhead c (by rw [hword]; rfl)
    rw [parse, String.ofList_toList]
    · intro rest hrest
      rw [hword] at hrest
      exact htag (List.cons.inj hrest).1
    · intro rest hrest
      rw [hword] at hrest
      exact hsynonym (List.cons.inj hrest).1
    · intro rest hrest
      rw [hword] at hrest
      exact hvariable (List.cons.inj hrest).1
  | «variable» name =>
    have htext : (Term.variable name).render.toList = '$' :: name.toList := by simp [render]
    rw [htext, parse_variable, String.ofList_toList]
  | tagged cls label =>
    obtain ⟨hcls, hlabel⟩ := h
    obtain ⟨hne, hsplit, hclose⟩ := splitLabel_class hcls
    have htext : (tagged cls label).render.toList =
        '<' :: (cls.toList ++ (labelText label).toList ++ ['>']) := by
      simp [render]
    have hbody : '>' ∉ cls.toList ++ (labelText label).toList := by
      rw [List.mem_append, not_or]
      exact ⟨hclose, not_mem_labelText (by decide) hlabel⟩
    rw [htext, parse_tagged, enclosed_append hbody, ofTagBody,
      splitLabel_labelText hne hsplit fun l hl => ⟨(hlabel l hl).ne_empty, (hlabel l hl).unlabelled⟩]
    simp
  | synonym word classes label =>
    obtain ⟨hlength, hparts, hlabel⟩ := h
    obtain ⟨cls, rfl, hrender⟩ := render_synonym hlength label
    have hword := hparts word List.mem_cons_self
    have hcls : ∀ c ∈ cls, IsPart ']' c ∧ '|' ∉ c.toList := fun c hc =>
      hparts c (List.mem_cons_of_mem _ (Option.mem_toList.mpr hc))
    have htext : (synonym word cls.toList label).render.toList =
        '[' :: ((synonymBody word cls label).toList ++ [']']) := by
      rw [hrender]
      simp
    have hbody := not_mem_synonymBody hword.1 (fun c hc => (hcls c hc).1) hlabel
    rw [htext, parse_synonym, enclosed_append hbody]
    exact ofSynonymBody_synonymBody ⟨hword.1.ne_empty, hword.2, hword.1.unlabelled⟩
      (fun c hc => ⟨(hcls c hc).2, (hcls c hc).1.unlabelled⟩)
      fun l hl => ⟨(hlabel l hl).ne_empty, (hlabel l hl).unlabelled⟩

theorem blankless_labelText {close : Char} {label : Option String} (h : ∀ l ∈ label, IsPart close l) :
    Blankless (labelText label) := by
  cases label with
  | none => exact fun c hc => absurd hc (by simp [labelText])
  | some l => exact blankless_append.mpr ⟨by decide, (h l rfl).blankless⟩

/-- A term is written as one word. -/
theorem blankless_render {t : Term} (h : t.Writable) : t.render ≠ "" ∧ Blankless t.render := by
  cases t with
  | literal word => exact ⟨h.1, h.2.1⟩
  | «variable» name =>
    exact ⟨by simp [render], blankless_append.mpr ⟨by decide, h⟩⟩
  | tagged cls label =>
    obtain ⟨hcls, hlabel⟩ := h
    have hclass : Blankless cls := by
      rcases hcls with rfl | rfl | hpart
      · decide
      · decide
      · exact hpart.blankless
    refine ⟨by simp [render], ?_⟩
    simp only [render, blankless_append]
    exact ⟨⟨⟨by decide, hclass⟩, blankless_labelText hlabel⟩, by decide⟩
  | synonym word classes label =>
    obtain ⟨hlength, hparts, hlabel⟩ := h
    obtain ⟨cls, rfl, hrender⟩ := render_synonym hlength label
    have hclass : Blankless (classText cls) := by
      cases cls with
      | none => decide
      | some c =>
        exact blankless_append.mpr ⟨by decide, (hparts c (by simp)).1.blankless⟩
    rw [hrender]
    refine ⟨by simp, ?_⟩
    simp only [synonymBody, blankless_append]
    exact ⟨⟨by decide, ⟨(hparts word List.mem_cons_self).1.blankless, hclass⟩, blankless_labelText hlabel⟩,
      by decide⟩

end Term

/-! ### Marks -/

/-- Whether a text ends in the sign of a mark. -/
def Mark.Ends (text : List Char) : Prop := text.getLast? = some '*' ∨ text.getLast? = some '?'

instance : DecidablePred Mark.Ends := fun _ => inferInstanceAs (Decidable (_ ∨ _))

/-- A mark is read back behind a text, and none behind a text that does not end like one with a mark
or is nothing but the sign. -/
theorem Mark.split_render {body : List Char} {mark : Mark} (hne : body ≠ [])
    (honce : mark = .once → Mark.Ends body → body.length = 1) :
    Mark.split (body ++ mark.render.toList) = (body, mark) := by
  obtain ⟨c, cs, hreverse⟩ := List.exists_cons_of_ne_nil (mt List.reverse_eq_nil_iff.mp hne)
  have hbody : body = (c :: cs).reverse := by rw [← hreverse, List.reverse_reverse]
  cases mark with
  | optional => simp [Mark.split, render, hbody]
  | repeated => simp [Mark.split, render, hbody]
  | once =>
    have hsign : Mark.Ends body → cs = [] := fun hends => by
      have hlength := honce rfl hends
      rw [hbody, List.length_reverse, List.length_cons] at hlength
      exact List.eq_nil_of_length_eq_zero (Nat.succ.inj hlength)
    have hlast : body.getLast? = some c := by rw [hbody, List.getLast?_reverse, List.head?_cons]
    rw [render, String.toList_empty, List.append_nil, Mark.split, hreverse]
    split
    · next h =>
      obtain ⟨rfl, rfl⟩ := List.cons.inj h
      cases hsign (.inl hlast)
    · next h =>
      obtain ⟨rfl, rfl⟩ := List.cons.inj h
      cases hsign (.inr hlast)
    · rfl

/-- Whether a term is written without brackets. -/
def Term.IsWord : Term → Prop
  | .literal _ | .variable _ => True
  | .tagged .. | .synonym .. => False

instance : DecidablePred Term.IsWord
  | .literal _ | .variable _ => .isTrue trivial
  | .tagged .. | .synonym .. => .isFalse id

/-- A term in brackets does not end like one with a mark. -/
theorem Term.not_ends_render {t : Term} (h : ¬t.IsWord) : ¬Mark.Ends t.render.toList := by
  cases t with
  | literal _ | «variable» _ => exact absurd trivial h
  | tagged cls label =>
    have hlast : (tagged cls label).render.toList.getLast? = some '>' := by
      rw [render, String.toList_append]
      exact List.getLast?_concat
    rw [Mark.Ends, hlast]
    decide
  | synonym word classes label =>
    have hlast : (synonym word classes label).render.toList.getLast? = some ']' := by
      rw [render, String.toList_append]
      exact List.getLast?_concat
    rw [Mark.Ends, hlast]
    decide

namespace PatternToken

/-! ### Tokens -/

/-- Whether a token can be written so that it is read back: its term can, and a term without brackets
and without a mark does not end like one with a mark, unless it is nothing but the sign. The text of a
variable is always more than that. -/
structure Writable (t : PatternToken) : Prop where
  term : t.term.Writable
  plain : t.mark = .once → t.term.IsWord → Mark.Ends t.term.render.toList →
    t.term.render = "*" ∨ t.term.render = "?"

instance : DecidablePred Writable := fun _ => decidable_of_iff (_ ∧ _)
  ⟨fun h => ⟨h.1, h.2⟩, fun h => ⟨h.term, h.plain⟩⟩

/-- A token is read back as it was written. -/
theorem parse_render {t : PatternToken} (h : t.Writable) : parse t.render.toList = t := by
  have hne : t.term.render.toList ≠ [] := by simpa using (Term.blankless_render h.term).1
  have honce : t.mark = .once → Mark.Ends t.term.render.toList → t.term.render.toList.length = 1 := by
    intro hmark hends
    by_cases hword : t.term.IsWord
    · rcases h.plain hmark hword hends with hsign | hsign <;> rw [hsign] <;> rfl
    · exact absurd hends (Term.not_ends_render hword)
  rw [parse, render, String.toList_append, Mark.split_render hne honce]
  dsimp only
  rw [Term.parse_render h.term]

/-- A token is written as one word. -/
theorem blankless_render {t : PatternToken} (h : t.Writable) :
    t.render ≠ "" ∧ Term.Blankless t.render := by
  obtain ⟨hne, hterm⟩ := Term.blankless_render h.term
  refine ⟨by simp [render, hne], Term.blankless_append.mpr ⟨hterm, ?_⟩⟩
  cases t.mark <;> decide

end PatternToken

/-! ### Patterns -/

/-- Tokens written one behind another, each with what stands behind it. -/
def spell : List (PatternToken × String) → String
  | [] => ""
  | (t, gap) :: written => t.render ++ gap ++ spell written

/-- Whether tokens are kept apart: behind each one stand blanks only, and some unless it is the last. -/
def Parted (written : List (PatternToken × String)) : Prop :=
  (∀ p ∈ written, Letter.allBlank p.2.toList = true) ∧ ∀ p ∈ written.dropLast, p.2 ≠ ""

instance : DecidablePred Parted := fun _ => inferInstanceAs (Decidable (_ ∧ _))

/-- The tokens of a pattern are those that were written, whatever blanks stand between them. -/
theorem tokensOf_spell {lead : String} {written : List (PatternToken × String)}
    (hlead : Letter.allBlank lead.toList = true) (hwritten : ∀ p ∈ written, p.1.Writable)
    (hparted : Parted written) : tokensOf (lead ++ spell written) = written.map (·.1) := by
  rw [tokensOf, String.toList_append, Letter.words_blank_append hlead]
  induction written with
  | nil => rfl
  | cons p written ih =>
    obtain ⟨t, gap⟩ := p
    obtain ⟨hgaps, hbetween⟩ := hparted
    have ht : t.Writable := hwritten (t, gap) List.mem_cons_self
    obtain ⟨hne, hblankless⟩ := PatternToken.blankless_render ht
    have hrest : gap.toList = [] → (spell written).toList = [] := by
      intro hgap
      cases written with
      | nil => rfl
      | cons q written =>
        exact absurd (by simpa using hgap) (hbetween (t, gap) (by simp))
    have hwords := Letter.words_word_append (by simpa using hne) hblankless
      (hgaps (t, gap) List.mem_cons_self) hrest
    have hparted : Parted written := by
      refine ⟨fun q hq => hgaps q (List.mem_cons_of_mem _ hq), fun q hq => hbetween q ?_⟩
      cases written with
      | nil => cases hq
      | cons _ _ => exact List.mem_cons_of_mem _ hq
    rw [spell, String.toList_append, String.toList_append, List.append_assoc, hwords, List.map_cons,
      PatternToken.parse_render ht, List.map_cons,
      ih (fun q hq => hwritten q (List.mem_cons_of_mem _ hq)) hparted]

/-- A variable that is named by the sign of a mark is read as one without a name that has the mark. -/
example : tokensOf "$* * ?" =
    [⟨.variable "", .repeated⟩, ⟨.literal "*", .once⟩, ⟨.literal "?", .once⟩] := by decide +kernel

end TokenPatterns
