import TokenPatterns.Proofs.Greedy.Mandatory

/-! Optional words left out.

Take a pattern of distinct words, some of them optional, and a text made of all its words but some
of the optional ones. At each word of the text only one token of the pattern accepts, so that a
match has no choice: it comes to the end of the text (`runTo_kept`), or it is held up where it
cannot get past the tokens that were left out (`runTo_held`). It gets past them from a mandatory
token only: behind an optional token that was taken, a match has to go on to the very next one. -/
namespace TokenPatterns

namespace PatternToken

theorem accepts_literal (lexicon : Lexicon) (language : String) (text : Text) (word : String)
    (mark : Mark) (index : Nat) :
    PatternToken.accepts lexicon language text ⟨.literal word, mark⟩ index =
      decide (text.words[index]? = some word) := by
  show (text.token? index).any (·.text == word) = _
  rw [text.getElem?_words]
  cases text.token? index with
  | none => rfl
  | some token => simp only [Option.any_some, Option.map_some, Option.some.injEq, beq_eq_decide]

end PatternToken

namespace Greedy

/-- Whether a match gets from a token with a mark to the first of the tokens behind it that is kept,
or to none if all are left out. -/
def Reaches (keep : PatternToken → Bool) (mark : Mark) (ts : List PatternToken) : Prop :=
  mark = .once ∨ (∀ next ∈ ts.head?, keep next = true) ∨ ∀ t ∈ ts, keep t = false

/-- Behind every token that is kept but might be left out, the very next one is kept too, or none
of the later ones is. -/
def Bridged (keep : PatternToken → Bool) : List PatternToken → Prop
  | [] => True
  | t :: ts => (keep t = true → Reaches keep t.mark ts) ∧ Bridged keep ts

section Bridged

variable {keep : PatternToken → Bool} {omitted ts : List PatternToken} {u : PatternToken}
  {mark : Mark}

theorem reaches_append (homitted : ∀ t ∈ omitted, keep t = false) (hu : keep u = true) :
    Reaches keep mark (omitted ++ u :: ts) ↔ mark = .once ∨ omitted = [] := by
  refine or_congr_right ?_
  cases omitted with
  | nil => exact ⟨fun _ => rfl, fun _ => .inl fun next hnext => Option.some.inj hnext ▸ hu⟩
  | cons t omitted =>
    have ht : keep t = false := homitted t (List.mem_cons_self ..)
    refine ⟨fun hreaches => ?_, fun hnil => absurd hnil (List.cons_ne_nil _ _)⟩
    rcases hreaches with hnext | hnone
    · exact absurd (ht.symm.trans (hnext t rfl)) Bool.false_ne_true
    · have hnone := hnone u (List.mem_append_right _ (List.mem_cons_self ..))
      exact absurd (hnone.symm.trans hu) Bool.false_ne_true

/-- Tokens that are left out ask for nothing behind them. -/
theorem bridged_append (homitted : ∀ t ∈ omitted, keep t = false) :
    Bridged keep (omitted ++ ts) ↔ Bridged keep ts := by
  induction omitted with
  | nil => rfl
  | cons t omitted ih =>
    have ht : keep t = false := homitted t (List.mem_cons_self ..)
    rw [List.cons_append, Bridged, ih fun u hu => homitted u (List.mem_cons_of_mem _ hu)]
    exact and_iff_right fun hkeep => absurd (ht.symm.trans hkeep) Bool.false_ne_true

theorem bridged_of_omitted (homitted : ∀ t ∈ omitted, keep t = false) : Bridged keep omitted := by
  have hnil := (@bridged_append keep omitted [] homitted).mpr trivial
  rwa [List.append_nil] at hnil

end Bridged

/-- Where the text goes on with the kept ones of some tokens, the next word is that of the first of
them, and behind it the text goes on with the others. -/
theorem exists_next_kept {keep : PatternToken → Bool} {text : Text} {rest us : List PatternToken}
    {u : PatternToken} {i : Nat}
    (hwords : text.words.drop i = (rest.filter keep).map (·.term.render))
    (hkept : rest.filter keep = u :: us) :
    ∃ omitted ts, rest = omitted ++ u :: ts ∧ (∀ t ∈ omitted, keep t = false) ∧ keep u = true ∧
      ts.filter keep = us ∧ i < text.size ∧ text.words[i]? = some u.term.render ∧
      text.words.drop (i + 1) = (ts.filter keep).map (·.term.render) := by
  obtain ⟨omitted, ts, hrest, homitted, hu, hts⟩ := List.filter_eq_cons_iff.mp hkept
  rw [hkept, List.map_cons] at hwords
  obtain ⟨hword, hmore⟩ := of_drop_eq_cons hwords
  have hlt := (List.getElem?_eq_some_iff.mp hword).1
  rw [text.length_words] at hlt
  rw [← hts] at hmore
  exact ⟨omitted, ts, hrest, fun t ht => Bool.eq_false_iff.mpr (homitted t ht), hu, hts, hlt, hword,
    hmore⟩

/-- The token behind which a match stands after it took the next one that is kept. -/
theorem behind_kept {tokens omitted ts : List PatternToken} {u : PatternToken} {k : Nat}
    (hdrop : tokens.drop k = omitted ++ u :: ts) :
    tokens.drop (k + omitted.length + 1) = ts ∧
      markAt (tokens.map (·.mark)) (k + omitted.length + 1) = u.mark := by
  have hdrop' : tokens.drop (k + omitted.length) = u :: ts := by
    rw [← List.drop_drop, hdrop, List.drop_left]
  obtain ⟨htoken, hts⟩ := of_drop_eq_cons hdrop'
  exact ⟨hts, markAt_of_getElem? htoken⟩

/-- Where only the next token could be taken and never accepts, every move passes over a token of
the text. -/
theorem passed_of_sole {items : List (Node × Mark)} {accepts : Nat → Nat → Bool} {k h i : Nat}
    (hsole : ∀ h j, j ∈ candidates (items.map (·.2)) ⟨k, h⟩ → j = k + 1)
    (hnone : ∀ x, accepts (k + 1) x = false) (remaining : Nat) :
    ∀ m ∈ run items accepts ⟨k, h⟩ i remaining, m.place.passed ≠ 0 := by
  induction remaining generalizing h i with
  | zero => exact fun m hm => absurd hm List.not_mem_nil
  | succ remaining ih =>
    intro m hm
    cases hstep : step items (accepts · i) ⟨k, h⟩ with
    | none =>
      rw [run_of_stuck hstep] at hm
      exact absurd hm List.not_mem_nil
    | some q =>
      rw [run_of_step hstep] at hm
      rcases step_cases hstep with ⟨j, rfl, hj, haccepts, _⟩ | ⟨rfl, _, _⟩
      · rw [hsole h j hj, hnone i] at haccepts
        exact absurd haccepts Bool.false_ne_true
      · rcases List.mem_cons.mp hm with rfl | hm
        · exact Nat.succ_ne_zero h
        · exact ih m hm

/-- A text of the words of a pattern that has distinct words, without some of the optional ones. -/
structure Abridged (tokens : List PatternToken) (keep : PatternToken → Bool) (text : Text) : Prop where
  literal : ∀ t ∈ tokens, ∃ word, t.term = .literal word
  single : ∀ t ∈ tokens, t.mark ≠ .repeated
  distinct : (tokens.map (·.term)).Nodup
  mandatory : ∀ t ∈ tokens, t.mark = .once → keep t = true
  words : text.words = (tokens.filter keep).map (·.term.render)

namespace Abridged

variable {lexicon : Lexicon} {language : String} {tokens : List PatternToken}
  {keep : PatternToken → Bool} {text : Text} (h : Abridged tokens keep text)
include h

/-- Each word of the text is accepted by one token only. -/
theorem accepts_iff {t u : PatternToken} (ht : t ∈ tokens) (hu : u ∈ tokens) {i : Nat}
    (hword : text.words[i]? = some u.term.render) :
    t.accepts lexicon language text i = true ↔ t = u := by
  obtain ⟨word, hterm⟩ := h.literal t ht
  obtain ⟨word', hterm'⟩ := h.literal u hu
  obtain ⟨term, mark⟩ := t
  obtain rfl : term = .literal word := hterm
  rw [PatternToken.accepts_literal, hword, hterm', decide_eq_true_eq, Option.some.injEq]
  constructor
  · intro hsame
    refine List.inj_on_of_nodup_map h.distinct ht hu ?_
    show Term.literal word = u.term
    rw [hterm', ← show word' = word from hsame]
  · intro htu
    rw [← htu] at hterm'
    exact (Term.literal.inj hterm').symm

/-- A token that is left out accepts no word of the text. -/
theorem rejects {t : PatternToken} (ht : t ∈ tokens) (hkeep : keep t = false) (i : Nat) :
    t.accepts lexicon language text i = false := by
  refine Bool.eq_false_iff.mpr fun haccepts => ?_
  obtain ⟨word, hterm⟩ := h.literal t ht
  have hword : text.words[i]? = some word := by
    obtain ⟨term, mark⟩ := t
    obtain rfl : term = .literal word := hterm
    rwa [PatternToken.accepts_literal, decide_eq_true_eq] at haccepts
  have hmem := List.mem_of_getElem? hword
  rw [h.words] at hmem
  obtain ⟨u, hu, hrender⟩ := List.mem_map.mp hmem
  obtain ⟨hu, hkept⟩ := List.mem_filter.mp hu
  rw [← hrender] at hword
  obtain rfl := (h.accepts_iff ht hu hword).mp haccepts
  exact absurd (hkeep.symm.trans hkept) Bool.false_ne_true

/-- No mark of the pattern lets a token be taken again. -/
theorem mark_ne_repeated (k : Nat) : markAt (tokens.map (·.mark)) k ≠ .repeated := by
  cases k with
  | zero => exact root_ne_repeated _
  | succ k =>
    cases htoken : tokens[k]? with
    | some t =>
      rw [markAt_of_getElem? htoken]
      exact h.single t (List.mem_of_getElem? htoken)
    | none =>
      simp only [markAt, List.getElem?_map, htoken, Option.map_none, Option.getD_none]
      decide

/-- The next token that is kept is taken, unless tokens that were left out stand between it and an
optional one. -/
theorem stepAt_kept {k i : Nat} {omitted ts : List PatternToken} {u : PatternToken}
    (hdrop : tokens.drop k = omitted ++ u :: ts) (homitted : ∀ t ∈ omitted, keep t = false)
    (hreach : markAt (tokens.map (·.mark)) k = .once ∨ omitted = [])
    (hword : text.words[i]? = some u.term.render) :
    stepAt lexicon language tokens text i ⟨k, 0⟩ = some ⟨k + omitted.length + 1, 0⟩ := by
  have hget : ∀ d, tokens[k + d]? = (omitted ++ u :: ts)[d]? := fun d => by
    rw [← hdrop, List.getElem?_drop]
  have htoken : tokens[k + omitted.length]? = some u := by
    rw [hget, List.getElem?_append_right (Nat.le_refl _), Nat.sub_self]
    rfl
  have hlt := (List.getElem?_eq_some_iff.mp htoken).1
  have hmem := List.mem_of_getElem? htoken
  have hbetween : ∀ x < k + omitted.length + 1, k < x → markAt (tokens.map (·.mark)) x ≠ .once := by
    intro x hx hkx
    obtain ⟨d, rfl⟩ := Nat.exists_eq_add_of_lt hkx
    have hd : d < omitted.length := by omega
    have hv : tokens[k + d]? = some omitted[d] := by
      rw [hget, List.getElem?_append_left hd, List.getElem?_eq_getElem hd]
    rw [markAt_of_getElem? hv]
    intro hmandatory
    have hkept := h.mandatory _ (List.mem_of_getElem? hv) hmandatory
    have hnot := homitted _ (List.getElem_mem hd)
    exact absurd (hnot.symm.trans hkept) Bool.false_ne_true
  refine step_eq_take ?_ ?_ ?_
  · rw [marks_prepare, mem_candidates, List.length_map]
    refine ⟨hlt, ?_⟩
    by_cases hnil : omitted = []
    · exact .inr (.inl (by rw [hnil]; rfl))
    · have hpos := List.length_pos_iff.mpr hnil
      exact .inr (.inr ⟨.inr (hreach.resolve_right hnil), by omega, hbetween⟩)
  · rw [accepts_prepare htoken]
    exact (h.accepts_iff hmem hmem hword).mpr rfl
  · intro j hj haccepts
    rw [marks_prepare] at hj
    obtain ⟨_, hpos, hle⟩ := candidates_bounds hj
    obtain ⟨x, rfl⟩ := Nat.exists_eq_add_of_le' hpos
    rw [List.length_map] at hle
    -- the words are distinct, so whatever else accepts is the same token
    have hx : tokens[x]? = some tokens[x] := List.getElem?_eq_getElem hle
    rw [accepts_prepare hx, h.accepts_iff (List.getElem_mem hle) hmem hword] at haccepts
    rw [haccepts, ← htoken] at hx
    have hnodup : tokens.Nodup := h.distinct.of_map _
    obtain rfl := (List.getElem?_inj hle hnodup).mp hx
    exact ahead_refl _

/-! ### Runs -/

/-- Behind an optional token a match is held up by a token that was left out. -/
theorem passed_of_omitted {k i : Nat} {t : PatternToken} {ts : List PatternToken}
    (hmark : markAt (tokens.map (·.mark)) k ≠ .once) (hdrop : tokens.drop k = t :: ts)
    (ht : keep t = false) (hi : i < text.size) :
    (lastPlace ⟨k, 0⟩ (runTo lexicon language tokens text text.size ⟨k, 0⟩ i)).passed ≠ 0 := by
  obtain ⟨htoken, _⟩ := of_drop_eq_cons hdrop
  have hlt := (List.getElem?_eq_some_iff.mp htoken).1
  have hpos : 1 ≤ k := by
    rcases Nat.eq_zero_or_pos k with rfl | hpos
    · exact absurd rfl hmark
    · exact hpos
  -- an optional token has no way past the next one, so nothing else can be taken from here on
  have hsole : ∀ h' j, j ∈ candidates ((prepare lexicon language tokens).map (·.2)) ⟨k, h'⟩ →
      j = k + 1 := by
    intro h' j hj
    rw [marks_prepare] at hj
    cases h' with
    | zero =>
      rcases (mem_candidates.mp hj).2 with ⟨_, hrepeated, _⟩ | hnext | ⟨hfar, _⟩
      · exact absurd hrepeated (h.mark_ne_repeated k)
      · exact hnext
      · exact absurd hfar (by simp [hmark]; omega)
    | succ h' => exact (mem_candidates_passed.mp hj).2
  have hnone : ∀ x, accepts lexicon text (prepare lexicon language tokens) (k + 1) x = false := by
    intro x
    rw [accepts_prepare htoken]
    exact h.rejects (List.mem_of_getElem? htoken) ht x
  have hstep : stepAt lexicon language tokens text i ⟨k, 0⟩ = some ⟨k, 1⟩ := by
    rw [stepAt, step_eq_pass fun j hj => by rw [hsole 0 j hj, hnone], length_prepare,
      if_pos ⟨hpos, hlt, Nat.zero_lt_two⟩]
  have hmoves := passed_of_sole (h := 0) (i := i) hsole hnone (text.size - i)
  have hne : runTo lexicon language tokens text text.size ⟨k, 0⟩ i ≠ [] := by
    rw [runTo_of_step hi hstep]
    exact List.cons_ne_nil _ _
  rw [lastPlace, List.getLast?_eq_some_getLast hne]
  exact hmoves _ (List.getLast_mem hne)

variable {rest : List PatternToken} {k i : Nat} (hdrop : tokens.drop k = rest)
  (hwords : text.words.drop i = (rest.filter keep).map (·.term.render))
include hdrop hwords

/-- Where no token stands in its way a match takes every word up to the end of the text, and leaves
none of the kept tokens behind. -/
theorem runTo_kept (hreaches : Reaches keep (markAt (tokens.map (·.mark)) k) rest)
    (hbridged : Bridged keep rest) :
    let moves := runTo lexicon language tokens text text.size ⟨k, 0⟩ i
    moves.length = text.size - i ∧ (∀ m ∈ moves, m.place.passed = 0) ∧
      ∃ j, lastPlace ⟨k, 0⟩ moves = ⟨j, 0⟩ ∧ ∀ t ∈ tokens.drop j, keep t = false := by
  intro moves
  induction hkept : rest.filter keep generalizing k i rest with
  | nil =>
    rw [hkept, List.map_nil, List.drop_eq_nil_iff, text.length_words] at hwords
    have hmoves : moves = [] := runTo_of_le hwords
    rw [hmoves]
    refine ⟨by rw [List.length_nil]; omega, fun m hm => absurd hm List.not_mem_nil, k, rfl, ?_⟩
    intro t ht
    exact Bool.eq_false_iff.mpr (List.filter_eq_nil_iff.mp hkept t (hdrop ▸ ht))
  | cons u us ih =>
    obtain ⟨omitted, ts, rfl, homitted, hu, hts, hlt, hword, hmore⟩ := exists_next_kept hwords hkept
    obtain ⟨hdrop', hmark⟩ := behind_kept hdrop
    rw [reaches_append homitted hu] at hreaches
    rw [bridged_append homitted, Bridged] at hbridged
    have hstep : stepAt lexicon language tokens text i ⟨k, 0⟩ = _ :=
      h.stepAt_kept hdrop homitted hreaches hword
    obtain ⟨hlength, hpassed, j, hlast, hrest⟩ :=
      ih hdrop' hmore (hmark ▸ hbridged.1 hu) hbridged.2 hts
    have hmoves : moves = _ := runTo_of_step hlt hstep
    rw [hmoves]
    refine ⟨by rw [List.length_cons, hlength]; omega, fun m hm => ?_, j, ?_, hrest⟩
    · rcases List.mem_cons.mp hm with rfl | hm
      · rfl
      · exact hpassed m hm
    · rw [lastPlace_cons]
      exact hlast

/-- Where a token stands in its way a match ends with a token of the text passed over. -/
theorem runTo_held (hno : ¬(Reaches keep (markAt (tokens.map (·.mark)) k) rest ∧ Bridged keep rest)) :
    (lastPlace ⟨k, 0⟩ (runTo lexicon language tokens text text.size ⟨k, 0⟩ i)).passed ≠ 0 := by
  induction hkept : rest.filter keep generalizing k i rest with
  | nil =>
    have homitted : ∀ t ∈ rest, keep t = false := fun t ht =>
      Bool.eq_false_iff.mpr (List.filter_eq_nil_iff.mp hkept t ht)
    exact absurd ⟨.inr (.inr homitted), bridged_of_omitted homitted⟩ hno
  | cons u us ih =>
    obtain ⟨omitted, ts, rfl, homitted, hu, hts, hlt, hword, hmore⟩ := exists_next_kept hwords hkept
    obtain ⟨hdrop', hmark⟩ := behind_kept hdrop
    rw [reaches_append homitted hu, bridged_append homitted, Bridged] at hno
    by_cases hreaches : markAt (tokens.map (·.mark)) k = .once ∨ omitted = []
    · have hstep : stepAt lexicon language tokens text i ⟨k, 0⟩ = _ :=
        h.stepAt_kept hdrop homitted hreaches hword
      rw [runTo_of_step hlt hstep, lastPlace_cons]
      exact ih hdrop' hmore (fun hboth => hno ⟨hreaches, fun _ => hmark ▸ hboth.1, hboth.2⟩) hts
    · obtain ⟨t, omitted, rfl⟩ := List.exists_cons_of_ne_nil (not_or.mp hreaches).2
      exact h.passed_of_omitted (not_or.mp hreaches).1 hdrop (homitted t (List.mem_cons_self ..)) hlt

omit hdrop hwords in
/-- A match may end at a place behind which all tokens were left out. -/
theorem isEnd_of_omitted (hmandatory : ∃ t ∈ tokens, t.mark = .once) {j : Nat}
    (hrest : ∀ t ∈ tokens.drop j, keep t = false) : IsEnd (tokens.map (·.mark)) ⟨j, 0⟩ := by
  have hbehind : ∀ x (hx : x < tokens.length), j ≤ x → tokens[x].mark ≠ .once := by
    intro x hx hjx hmark
    have hmem : tokens[x] ∈ tokens.drop j :=
      List.mem_drop_iff_getElem.mpr ⟨x - j, by omega, by simp only [Nat.add_sub_cancel' hjx]⟩
    have hkeep := h.mandatory _ (List.getElem_mem hx) hmark
    exact absurd ((hrest _ hmem).symm.trans hkeep) Bool.false_ne_true
  refine ⟨rfl, ?_, fun i hi hlt => ?_⟩
  · obtain ⟨t, ht, hmark⟩ := hmandatory
    obtain ⟨x, hx, rfl⟩ := List.mem_iff_getElem.mp ht
    have hxj : x < j := Nat.lt_of_not_le fun hjx => hbehind x hx hjx hmark
    exact ⟨x + 1, hxj, Nat.succ_pos x,
      (markAt_of_getElem? (List.getElem?_eq_getElem hx)).trans hmark⟩
  · obtain ⟨x, rfl⟩ := Nat.exists_eq_add_of_le' (show 1 ≤ i from Nat.lt_of_le_of_lt (Nat.zero_le _) hlt)
    rw [List.length_map] at hi
    rw [markAt_of_getElem? (List.getElem?_eq_getElem hi)]
    exact hbehind x hi (Nat.lt_succ_iff.mp hlt)

end Abridged

end Greedy

namespace Matcher

/-- On the words of a pattern of distinct words without some of its optional ones the pattern
matches where each optional word that is kept is followed by the very next word of the pattern or
by none, and then it takes the whole text. -/
theorem matchAt_abridged (lexicon : Lexicon) (id pattern : String) (styles : Option String)
    (language : String) (text : Text) (keep : PatternToken → Bool)
    (habridged : Greedy.Abridged (tokensOf pattern) keep text)
    (hmandatory : ∃ t ∈ tokensOf pattern, t.mark = .once) :
    let m := (compile id pattern styles language).run lexicon
    let found := (m.matchAt text 0 text.size).run lexicon
    (found.isMatch = true ↔ Greedy.Bridged keep (tokensOf pattern)) ∧
      (found.isMatch = true → found.matchCount = text.size ∧ found.window = text.size) := by
  intro m found
  have hfound : found = _ := (run_matchAt_compile ..).trans Greedy.matchAt_eq_outcome
  rw [Nat.min_self] at hfound
  have hwords : text.words.drop 0 = ((tokensOf pattern).filter keep).map (·.term.render) :=
    habridged.words
  have hreaches : Greedy.Reaches keep (Greedy.markAt ((tokensOf pattern).map (·.mark)) 0)
      (tokensOf pattern) := .inl rfl
  set moves := Greedy.runTo lexicon language (tokensOf pattern) text text.size Greedy.start 0
  by_cases hbridged : Greedy.Bridged keep (tokensOf pattern)
  · obtain ⟨hlength, hpassed, j, hlast, hrest⟩ :
        moves.length = text.size ∧ (∀ move ∈ moves, move.place.passed = 0) ∧
          ∃ j, Greedy.lastPlace Greedy.start moves = ⟨j, 0⟩ ∧
            ∀ t ∈ (tokensOf pattern).drop j, keep t = false :=
      habridged.runTo_kept List.drop_zero hwords hreaches hbridged
    have hend : Greedy.IsEnd ((Greedy.prepare lexicon language (tokensOf pattern)).map (·.2))
        (Greedy.lastPlace Greedy.start moves) := by
      rw [Greedy.marks_prepare, hlast]
      exact habridged.isEnd_of_omitted hmandatory hrest
    have hcount : moves.countP (·.place.passed = 0) = moves.length :=
      List.countP_eq_length.mpr fun move hmove => decide_eq_true (hpassed move hmove)
    have hmatch : found.isMatch = true := by
      rw [hfound]
      exact Greedy.isMatch_outcome.mpr hend
    refine ⟨⟨fun _ => hbridged, fun _ => hmatch⟩, fun _ => ?_⟩
    rw [hfound, Greedy.outcome_of_isEnd hend]
    exact ⟨hcount.trans hlength, hlength⟩
  · have hheld : (Greedy.lastPlace Greedy.start moves).passed ≠ 0 :=
      habridged.runTo_held List.drop_zero hwords fun hboth => hbridged hboth.2
    have hnone : found.isMatch = false := by
      rw [hfound, Greedy.outcome_of_not_isEnd fun hend => hheld hend.1]
      rfl
    have hno : ¬found.isMatch = true := Bool.eq_false_iff.mp hnone
    exact ⟨⟨fun hmatch => absurd hmatch hno, fun hall => absurd hall hbridged⟩,
      fun hmatch => absurd hmatch hno⟩

/-- Two optional words in a row between mandatory ones. -/
theorem tokensOf_optional_pair : tokensOf "xxx aaa? bbb? zzz" =
    [⟨.literal "xxx", .once⟩, ⟨.literal "aaa", .optional⟩, ⟨.literal "bbb", .optional⟩,
      ⟨.literal "zzz", .once⟩] := by
  decide +kernel

/-- The first of two optional words is left out. -/
theorem matchAt_abridged_pair :
    let pattern := "xxx aaa? bbb? zzz"
    let lexicon := Dictionary.empty.lexicon
    let keep : PatternToken → Bool := fun t => t.term.render != "aaa"
    let text := Text.ofWords ["xxx", "bbb", "zzz"]
    let m := (compile "1" pattern none "en").run lexicon
    let found := (m.matchAt text 0 text.size).run lexicon
    (Greedy.Abridged (tokensOf pattern) keep text ∧ ∃ t ∈ tokensOf pattern, t.mark = .once) ∧
      found.isMatch = true ∧ found.matchCount = 3 ∧ found.window = 3 := by
  intro pattern lexicon keep text m found
  have hbridged : Greedy.Bridged keep (tokensOf pattern) := by
    rw [tokensOf_optional_pair]
    simp only [Greedy.Bridged, Greedy.Reaches]
    decide
  have habridged : Greedy.Abridged (tokensOf pattern) keep text := by
    rw [tokensOf_optional_pair]
    exact ⟨by simp, by decide, by decide, by decide, by decide⟩
  have hmandatory : ∃ t ∈ tokensOf pattern, t.mark = .once := by
    rw [tokensOf_optional_pair]
    decide
  obtain ⟨hiff, hcount⟩ :=
    matchAt_abridged lexicon "1" pattern none "en" text keep habridged hmandatory
  exact ⟨⟨habridged, hmandatory⟩, hiff.mpr hbridged, hcount (hiff.mpr hbridged)⟩

/-- The second of two optional words cannot be left out where the first one is kept. -/
theorem matchAt_abridged_pair_eq_none :
    let pattern := "xxx aaa? bbb? zzz"
    let lexicon := Dictionary.empty.lexicon
    let keep : PatternToken → Bool := fun t => t.term.render != "bbb"
    let text := Text.ofWords ["xxx", "aaa", "zzz"]
    let m := (compile "1" pattern none "en").run lexicon
    (Greedy.Abridged (tokensOf pattern) keep text ∧ ∃ t ∈ tokensOf pattern, t.mark = .once) ∧
      (m.matchAt text 0 text.size).run lexicon = .none := by
  intro pattern lexicon keep text m
  refine ⟨?_, by decide +kernel⟩
  rw [tokensOf_optional_pair]
  exact ⟨⟨by simp, by decide, by decide, by decide, by decide⟩, by decide⟩

end Matcher
end TokenPatterns
