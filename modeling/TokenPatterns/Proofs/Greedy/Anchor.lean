import TokenPatterns.Proofs.Greedy.Consumer

/-! Repeated variables between mandatory tokens.

The mandatory token behind a repeated variable is its anchor: what the variable consumes ends where
the anchor first accepts, however many tokens that are (`runTo_anchored`). A variable at the end of
a pattern has no anchor and consumes the rest of the range (`outcome_of_last`). -/
namespace TokenPatterns

namespace Greedy

variable {lexicon : Lexicon} {language : String} {tokens : List PatternToken} {text : Text}
  {stop : Nat}

/-! ### Mandatory tokens around a repeated variable -/

/-- Mandatory tokens on both sides of a repeated variable: those before it on a trail to one
position, the anchor, which is the token behind it, at the first position from there on that it
accepts, and the others behind the anchor on a trail from there. -/
structure Anchored (accepts : PatternToken → Nat → Bool) (stop : Nat) (before : List PatternToken)
    (anchor : PatternToken) (after : List PatternToken) (first p q j : Nat) : Prop where
  opening : Opening accepts stop before first p
  anchor : IsFirst (accepts anchor) stop p q
  trail : Trail accepts stop after (q + 1) j

/-- Before a repeated variable stands a mandatory token or the root. -/
theorem markAt_before {before rest : List PatternToken} (htokens : tokens = before ++ rest)
    (hbefore : ∀ t ∈ before, t.mark = .once) :
    markAt (tokens.map (·.mark)) before.length = .once := by
  by_cases hne : before = []
  · rw [hne]
    rfl
  · have hmark := markAt_mandatory (show tokens = [] ++ (before ++ rest) from htokens) hne hbefore
    rwa [List.length_nil, Nat.zero_add] at hmark

section Anchored

variable {before after : List PatternToken} {anchor : PatternToken} {name : String} {first p q j : Nat}
  (htokens : tokens = before ++ ⟨.variable name, .repeated⟩ :: anchor :: after)
  (hbefore : ∀ t ∈ before, t.mark = .once) (hanchor : anchor.mark = .once)
  (hterm : ∀ v, anchor.term ≠ .variable v) (hafter : ∀ t ∈ after, t.mark = .once)
include htokens

theorem getElem?_consumer : tokens[before.length]? = some ⟨.variable name, .repeated⟩ ∧
    tokens[before.length + 1]? = some anchor ∧ tokens.drop (before.length + 2) = after ++ [] := by
  have hdrop : tokens.drop before.length = ⟨.variable name, .repeated⟩ :: anchor :: after := by
    rw [htokens, List.drop_left]
  obtain ⟨hvariable, hdrop⟩ := of_drop_eq_cons hdrop
  obtain ⟨hget, hdrop⟩ := of_drop_eq_cons hdrop
  rw [List.append_nil]
  exact ⟨hvariable, hget, hdrop⟩

include hbefore hanchor

/-- Without a position for the anchor a match does not come past the variable. -/
theorem token_lt_of_no_anchor
    (h : ∀ q, ¬IsFirst (anchor.accepts lexicon language text) stop p q) :
    ∀ m ∈ runTo lexicon language tokens text stop ⟨before.length, 0⟩ p,
      m.place.token < before.length + 2 := by
  obtain ⟨hvariable, hget, _⟩ := getElem?_consumer htokens
  intro m hm
  rcases Nat.le_total stop p with hstop | hstop
  · rw [runTo_of_le hstop] at hm
    exact absurd hm List.not_mem_nil
  · obtain ⟨place, _, hrun⟩ := runTo_consumed hvariable (markAt_before htokens hbefore) (.inl rfl)
      (show p + (stop - p) ≤ stop by omega) fun x hx hxq b hb => by
        obtain rfl : anchor = b := Option.some.inj (hget.symm.trans hb)
        refine ⟨hanchor, Bool.eq_false_iff.mpr fun haccepts => ?_⟩
        obtain ⟨q, hq, _⟩ := exists_isFirst hx (show x < stop by omega) haccepts
        exact h q hq
    rw [hrun, Nat.add_sub_cancel' hstop, runTo_of_le (Nat.le_refl stop), List.append_nil] at hm
    rw [(mem_consumed.mp hm).1]
    exact Nat.lt_succ_self _

include hterm

/-- A match comes to the anchor at the first position that it accepts. -/
theorem runTo_anchor (h : IsFirst (anchor.accepts lexicon language text) stop p q) :
    runTo lexicon language tokens text stop ⟨before.length, 0⟩ p =
      consumed before.length p (q - p) ++ ⟨⟨before.length + 2, 0⟩, q⟩ ::
        runTo lexicon language tokens text stop ⟨before.length + 2, 0⟩ (q + 1) := by
  obtain ⟨hvariable, hget, _⟩ := getElem?_consumer htokens
  have hmark := markAt_before htokens hbefore
  have hle := h.le
  have hlt := h.lt
  obtain ⟨place, hplace, hrun⟩ := runTo_consumed hvariable hmark (.inl rfl)
    (show p + (q - p) ≤ stop by omega) fun x hx hxq b hb => by
      obtain rfl : anchor = b := Option.some.inj (hget.symm.trans hb)
      exact ⟨hanchor, h.first x hx (by omega)⟩
  rw [Nat.add_sub_cancel' hle] at hrun
  rw [hrun, runTo_of_step hlt (stepAt_anchor hvariable hmark hplace hget hanchor hterm h.accepted)]

omit hbefore hterm
include hafter

/-- The anchor and the tokens behind it are the mandatory tokens at the end of the pattern. -/
theorem closing_tokens :
    tokens = (before ++ [⟨.variable name, .repeated⟩]) ++ anchor :: after ∧
      (∀ t ∈ anchor :: after, t.mark = .once) ∧
      tokens.length = before.length + 1 + (1 + after.length) := by
  refine ⟨by rw [htokens, List.append_assoc]; rfl, fun t ht => ?_, ?_⟩
  · rcases List.mem_cons.mp ht with rfl | ht
    · exact hanchor
    · exact hafter t ht
  · rw [htokens, List.length_append, List.length_cons, List.length_cons]
    omega

include hbefore hterm

/-- The moves of a match that comes past the anchor and behind the last token. -/
theorem runTo_anchored (h : Anchored (PatternToken.accepts lexicon language text) stop before anchor
      after first p q j) :
    ∃ opening closing, runTo lexicon language tokens text stop start first =
        opening ++ (consumed before.length p (q - p) ++ closing) ∧
      Stretch 0 before.length first p opening ∧
      Stretch (before.length + 1) (1 + after.length) q j closing ∧ closing ≠ [] := by
  obtain ⟨_, hget, hdrop⟩ := getElem?_consumer htokens
  obtain ⟨hsplit, hlast, hlength⟩ := closing_tokens htokens hanchor hafter
  obtain ⟨opening, hopening, hstretch⟩ := runTo_opening htokens hbefore h.opening
  obtain ⟨closing, hclosing, hmore⟩ := runTo_trail (Nat.le_add_left 1 (before.length + 1)) hdrop
    (markAt_ne_repeated hget hanchor) hafter h.trail
  rw [show before.length + 1 + 1 + after.length = tokens.length by omega,
    runTo_last hsplit (List.cons_ne_nil _ _) hlast, List.append_nil] at hclosing
  refine ⟨opening, ⟨⟨before.length + 2, 0⟩, q⟩ :: closing, ?_, hstretch,
    (Stretch.take (before.length + 1) q).append hmore, List.cons_ne_nil _ _⟩
  rw [hopening, runTo_anchor htokens hbefore hanchor hterm h.anchor, hclosing]

/-- Without an anchor that the tokens behind it follow, a match does not come to the last token. -/
theorem token_lt_of_no_closing
    (h : ∀ q j, IsFirst (anchor.accepts lexicon language text) stop p q →
      ¬Trail (PatternToken.accepts lexicon language text) stop after (q + 1) j) :
    ∀ m ∈ runTo lexicon language tokens text stop ⟨before.length, 0⟩ p,
      m.place.token < tokens.length := by
  obtain ⟨_, hget, hdrop⟩ := getElem?_consumer htokens
  obtain ⟨_, _, hlength⟩ := closing_tokens htokens hanchor hafter
  intro m hm
  by_cases hex : ∃ q, IsFirst (anchor.accepts lexicon language text) stop p q
  · obtain ⟨q, hq⟩ := hex
    have hne : after ≠ [] := fun hnil => h q (q + 1) hq (hnil ▸ .nil _)
    have hpos := List.length_pos_iff.mpr hne
    rw [runTo_anchor htokens hbefore hanchor hterm hq] at hm
    rcases List.mem_append.mp hm with hm | hm
    · rw [(mem_consumed.mp hm).1]
      show before.length + 1 < tokens.length
      omega
    · rcases List.mem_cons.mp hm with rfl | hm
      · show before.length + 2 < tokens.length
        omega
      · have htoken := token_lt_of_no_trail (Nat.le_add_left 1 (before.length + 1)) hdrop
          (markAt_ne_repeated hget hanchor) hafter (fun j => h q j hq) m hm
        omega
  · have htoken := token_lt_of_no_anchor htokens hbefore hanchor (fun q hq => hex ⟨q, hq⟩) m hm
    omega

/-- Where the tokens do not line up around the variable there is no match. -/
theorem outcome_of_not_anchored
    (h : ∀ p q j, ¬Anchored (PatternToken.accepts lexicon language text) stop before anchor after
      first p q j) :
    outcome (prepare lexicon language tokens) text
      (runTo lexicon language tokens text stop start first) = .none := by
  by_cases hex : ∃ p, Opening (PatternToken.accepts lexicon language text) stop before first p
  · obtain ⟨p, hp⟩ := hex
    obtain ⟨hsplit, hlast, hlength⟩ := closing_tokens htokens hanchor hafter
    obtain ⟨opening, hrun, hstretch⟩ := runTo_opening htokens hbefore hp
    refine outcome_of_token_lt (show 0 < tokens.length by omega) (Nat.le_refl _)
      (markAt_last hsplit (List.cons_ne_nil _ _) hlast) fun m hm => ?_
    rw [hrun] at hm
    rcases List.mem_append.mp hm with hm | hm
    · have htoken := hstretch.tokens m hm
      omega
    · exact token_lt_of_no_closing htokens hbefore hanchor hterm hafter
        (fun q j hq htrail => h p q j ⟨hp, hq, htrail⟩) m hm
  · exact outcome_of_no_opening htokens hbefore fun p hp => hex ⟨p, hp⟩

end Anchored

/-! ### Matches -/

/-- What a match gives that consumes some tokens of the text with a repeated variable. -/
theorem outcome_of_consumed {k first p d : Nat} {name : String} {opening closing : List Move}
    (hvariable : tokens[k]? = some ⟨.variable name, .repeated⟩)
    (hopening : Stretch 0 k first p opening) (hsize : p + d ≤ text.size)
    (hend : IsEnd (tokens.map (·.mark)) (lastPlace start (opening ++ (consumed k p d ++ closing)))) :
    let nodes := (prepare lexicon language tokens).map (·.1)
    let found := outcome (prepare lexicon language tokens) text
      (opening ++ (consumed k p d ++ closing))
    found.isMatch = true ∧
      found.matchCount = k + (d + closing.countP (·.place.passed = 0)) ∧
      found.window = p - first + (d + closing.length) ∧
      (wordsUnder nodes text name opening = [] → wordsUnder nodes text name closing = [] →
        found.captures[name]? = phrase? (text.between p (p + d))) := by
  intro nodes found
  have hisEnd : IsEnd ((prepare lexicon language tokens).map (·.2))
      (lastPlace start (opening ++ (consumed k p d ++ closing))) := by
    rw [marks_prepare]
    exact hend
  have hfound : found = _ := outcome_of_isEnd hisEnd
  refine ⟨isMatch_outcome.mpr hisEnd, ?_, ?_, fun hbefore hafter => ?_⟩
  · rw [hfound]
    show List.countP _ _ = _
    rw [List.countP_append, List.countP_append, hopening.count, countP_consumed]
  · rw [hfound]
    show List.length _ = _
    rw [List.length_append, List.length_append, hopening.length, length_consumed]
  · rw [hfound]
    show (captured nodes text _)[name]? = _
    rw [getElem?_captured, wordsUnder_append, wordsUnder_append, hbefore, hafter,
      wordsUnder_consumed hvariable hsize, List.nil_append, List.append_nil]

/-- A match that comes past the anchor consumes the tokens in front of it, and passes over none of
them. -/
theorem outcome_of_anchored {before after : List PatternToken} {anchor : PatternToken}
    {name : String} {first p q j : Nat}
    (htokens : tokens = before ++ ⟨.variable name, .repeated⟩ :: anchor :: after)
    (hbefore : ∀ t ∈ before, t.mark = .once) (hanchor : anchor.mark = .once)
    (hterm : ∀ v, anchor.term ≠ .variable v) (hafter : ∀ t ∈ after, t.mark = .once)
    (h : Anchored (PatternToken.accepts lexicon language text) stop before anchor after first p q j)
    (hsize : stop ≤ text.size) :
    let moves := runTo lexicon language tokens text stop start first
    let found := outcome (prepare lexicon language tokens) text moves
    found.isMatch = true ∧
      found.matchCount = before.length + (q - p) + (after.length + 1) ∧
      found.window = j - first ∧
      (∀ m ∈ moves, p ≤ m.index → m.index < q → m.place.passed = 0) ∧
      ((∀ t ∈ before ++ anchor :: after, t.term.capture? ≠ some name) →
        found.captures[name]? = phrase? (text.between p q)) := by
  obtain ⟨hvariable, _, _⟩ := getElem?_consumer htokens
  obtain ⟨hsplit, hlast, hlength⟩ := closing_tokens htokens hanchor hafter
  obtain ⟨opening, closing, hrun, hopening, hclosing, hne⟩ :=
    runTo_anchored htokens hbefore hanchor hterm hafter h
  have hpq := h.anchor.le
  have hstop := h.anchor.lt
  have hplace : lastPlace start (opening ++ (consumed before.length p (q - p) ++ closing)) =
      ⟨tokens.length, 0⟩ := by
    rw [← List.append_assoc, lastPlace_append, lastPlace_of_ne_nil hne _ ⟨before.length + 1, 0⟩,
      hclosing.last, hlength]
  obtain ⟨hmatch, hcount, hwindow, hcaptures⟩ := outcome_of_consumed hvariable hopening
    (show p + (q - p) ≤ text.size by omega) (hplace ▸ isEnd_last hsplit (List.cons_ne_nil _ _) hlast)
  intro moves found
  rw [show found = _ from congrArg (outcome _ text) hrun, show moves = _ from hrun]
  refine ⟨hmatch, ?_, ?_, ?_, fun hname => ?_⟩
  · rw [hcount, hclosing.count]
    omega
  · have hle := hopening.le
    have hle' := hclosing.le
    rw [hwindow, hclosing.length]
    omega
  · intro m hm hpm hmq
    rcases List.mem_append.mp hm with hm | hm
    · have hrange := hopening.range m hm
      omega
    · rcases List.mem_append.mp hm with hm | hm
      · rw [(mem_consumed.mp hm).1]
      · have hrange := hclosing.range m hm
        omega
  · have hdrop : tokens.drop (before.length + 1) = anchor :: after ++ [] := by
      rw [hsplit, List.append_nil]
      exact List.drop_left' (by rw [List.length_append, List.length_singleton])
    have hclosing' : Stretch (before.length + 1) (anchor :: after).length q j closing := by
      rw [List.length_cons, Nat.add_comm after.length 1]
      exact hclosing
    rw [Nat.add_sub_cancel' hpq] at hcaptures
    refine hcaptures (hopening.wordsUnder htokens fun t ht => ?_)
      (hclosing'.wordsUnder hdrop fun t ht => ?_)
    · exact hname t (List.mem_append_left _ ht)
    · exact hname t (List.mem_append_right _ ht)

section Last

variable {before : List PatternToken} {name : String} {first p : Nat}
  (htokens : tokens = before ++ [⟨.variable name, .repeated⟩]) (hne : before ≠ [])
  (hbefore : ∀ t ∈ before, t.mark = .once)
include htokens

theorem getElem?_last : tokens[before.length]? = some ⟨.variable name, .repeated⟩ ∧
    tokens.length = before.length + 1 := by
  refine ⟨?_, by rw [htokens, List.length_append, List.length_singleton]⟩
  rw [htokens, List.getElem?_append_right (Nat.le_refl _), Nat.sub_self]
  rfl

include hne hbefore

/-- A match may end before a repeated variable at the end of the pattern and behind it. -/
theorem isEnd_consumer {place : Place} (hplace : AtConsumer before.length place) :
    IsEnd (tokens.map (·.mark)) place := by
  obtain ⟨hvariable, hlength⟩ := getElem?_last htokens
  have hpos := List.length_pos_iff.mpr hne
  have hmark := markAt_before htokens hbefore
  have hafter : ∀ i ≤ (tokens.map (·.mark)).length, before.length < i →
      markAt (tokens.map (·.mark)) i ≠ .once := by
    intro i hi hlt
    rw [List.length_map, hlength] at hi
    obtain rfl : i = before.length + 1 := by omega
    rw [markAt_of_getElem? hvariable]
    show Mark.repeated ≠ .once
    decide
  rcases hplace with rfl | rfl
  · exact ⟨rfl, ⟨before.length, Nat.le_refl _, hpos, hmark⟩, hafter⟩
  · exact ⟨rfl, ⟨before.length, Nat.le_succ _, hpos, hmark⟩,
      fun i hi hlt => hafter i hi (Nat.lt_of_succ_lt hlt)⟩

/-- A repeated variable at the end of a pattern consumes the rest of the range. -/
theorem outcome_of_last
    (h : Opening (PatternToken.accepts lexicon language text) stop before first p)
    (hsize : stop ≤ text.size) :
    let found := outcome (prepare lexicon language tokens) text
      (runTo lexicon language tokens text stop start first)
    found.isMatch = true ∧ found.matchCount = before.length + (stop - p) ∧
      found.window = stop - first ∧
      ((∀ t ∈ before, t.term.capture? ≠ some name) →
        found.captures[name]? = phrase? (text.between p stop)) := by
  obtain ⟨hvariable, hlength⟩ := getElem?_last htokens
  have hps := h.le_stop hne
  obtain ⟨opening, hopening, hstretch⟩ := runTo_opening htokens hbefore h
  obtain ⟨place, _, hrun⟩ := runTo_consumed hvariable (markAt_before htokens hbefore) (.inl rfl)
    (show p + (stop - p) ≤ stop by omega) fun x _ _ anchor hanchor => by
      rw [List.getElem?_eq_none (by omega)] at hanchor
      exact absurd hanchor (Option.some_ne_none anchor).symm
  rw [Nat.add_sub_cancel' hps, runTo_of_le (Nat.le_refl stop)] at hrun
  have hend : IsEnd (tokens.map (·.mark))
      (lastPlace start (opening ++ (consumed before.length p (stop - p) ++ []))) := by
    apply isEnd_consumer htokens hne hbefore
    rw [List.append_nil, lastPlace_append, show start = ⟨0, 0⟩ from rfl, hstretch.last, Nat.zero_add]
    exact lastPlace_consumed ..
  obtain ⟨hmatch, hcount, hwindow, hcaptures⟩ := outcome_of_consumed hvariable hstretch
    (show p + (stop - p) ≤ text.size by omega) hend
  intro found
  rw [show found = _ from congrArg (outcome _ text) (hopening.trans (congrArg (opening ++ ·) hrun))]
  have hle := hstretch.le
  refine ⟨hmatch, hcount, ?_, fun hname => ?_⟩
  · rw [hwindow, List.length_nil]
    omega
  · rw [Nat.add_sub_cancel' hps] at hcaptures
    exact hcaptures (hstretch.wordsUnder htokens hname) rfl

end Last

end Greedy

namespace Matcher

/-- A repeated variable consumes all up to the anchor, the mandatory token behind it, and captures
what it consumed; at the end of a pattern it consumes the rest of the range. -/
theorem matchAt_consumer (lexicon : Lexicon) (id pattern : String) (styles : Option String)
    (language : String) (text : Text) (first stop : Nat) (name : String)
    (before : List PatternToken) (hbefore : ∀ t ∈ before, t.mark = .once) :
    let m := (compile id pattern styles language).run lexicon
    let found := (m.matchAt text first stop).run lexicon
    let steps := (m.graph.walkAt text first stop).run lexicon
    let accepts := PatternToken.accepts lexicon language text
    (∀ anchor after,
      tokensOf pattern = before ++ ⟨.variable name, .repeated⟩ :: anchor :: after →
      anchor.mark = .once → (∀ v, anchor.term ≠ .variable v) → (∀ t ∈ after, t.mark = .once) →
      (found.isMatch = true ↔ ∃ p q j,
        Greedy.Anchored accepts (min stop text.size) before anchor after first p q j) ∧
      ∀ p q j, Greedy.Anchored accepts (min stop text.size) before anchor after first p q j →
        found.matchCount = before.length + (q - p) + (after.length + 1) ∧
        found.window = j - first ∧
        (∀ s ∈ steps, p ≤ s.index → s.index < q → m.graph.isSkip s.state = false) ∧
        ((∀ t ∈ before ++ anchor :: after, t.term.capture? ≠ some name) →
          found.captures[name]? = phrase? (text.between p q))) ∧
    (before ≠ [] → tokensOf pattern = before ++ [⟨.variable name, .repeated⟩] →
      (found.isMatch = true ↔
        ∃ p, Greedy.Opening accepts (min stop text.size) before first p) ∧
      ∀ p, Greedy.Opening accepts (min stop text.size) before first p →
        found.matchCount = before.length + (min stop text.size - p) ∧
        found.window = min stop text.size - first ∧
        ((∀ t ∈ before, t.term.capture? ≠ some name) →
          found.captures[name]? = phrase? (text.between p (min stop text.size)))) := by
  intro m found steps accepts
  have hfound : found = _ := (run_matchAt_compile ..).trans Greedy.matchAt_eq_outcome
  have hsize : min stop text.size ≤ text.size := Nat.min_le_right ..
  refine ⟨fun anchor after htokens hanchor hterm hafter => ?_, fun hne htokens => ?_⟩
  · rw [hfound]
    refine ⟨⟨fun hmatch => ?_, fun ⟨p, q, j, h⟩ => ?_⟩, fun p q j h => ?_⟩
    · by_contra hno
      rw [Greedy.outcome_of_not_anchored htokens hbefore hanchor hterm hafter
        fun p q j h => hno ⟨p, q, j, h⟩] at hmatch
      exact absurd hmatch Bool.false_ne_true
    · exact (Greedy.outcome_of_anchored htokens hbefore hanchor hterm hafter h hsize).1
    · obtain ⟨_, hcount, hwindow, hpassed, hcaptures⟩ :=
        Greedy.outcome_of_anchored htokens hbefore hanchor hterm hafter h hsize
      refine ⟨hcount, hwindow, fun s hs hps hsq => ?_, hcaptures⟩
      have hgraph : m.graph = _ := (graph_compile lexicon id pattern styles language).1
      have hs : s ∈ (m.graph.walkAt text first stop).run lexicon := hs
      rw [hgraph] at hs
      obtain ⟨move, hmove, hindex, hskip⟩ := Greedy.exists_move_of_mem_walkAt lexicon text hs
      rw [hgraph, hskip, hpassed move hmove (hindex ▸ hps) (hindex ▸ hsq)]
      rfl
  · rw [hfound]
    refine ⟨⟨fun hmatch => ?_, fun ⟨p, h⟩ => ?_⟩, fun p h => ?_⟩
    · by_contra hno
      rw [Greedy.outcome_of_no_opening htokens hbefore fun p h => hno ⟨p, h⟩] at hmatch
      exact absurd hmatch Bool.false_ne_true
    · exact (Greedy.outcome_of_last htokens hne hbefore h hsize).1
    · exact (Greedy.outcome_of_last htokens hne hbefore h hsize).2

/-- A repeated variable before an anchor, and one at the end of a pattern. -/
theorem matchAt_consumer_phrases :
    let lexicon := Dictionary.empty.lexicon
    let text := Text.ofWords ["xxx", "aaa", "aaa", "yyy", "zzz"]
    let before : List PatternToken := [⟨.literal "xxx", .once⟩]
    let found (pattern : String) :=
      (((compile "3" pattern none "en").run lexicon).matchAt text 0 9).run lexicon
    (∀ t ∈ before, t.mark = .once) ∧
      (found "xxx $name2* zzz").window = 5 ∧
      (found "xxx $name2* zzz").captures["name2"]? = some "aaa aaa yyy" ∧
      (found "xxx $rest*").window = 5 ∧
      (found "xxx $rest*").captures["rest"]? = some "aaa aaa yyy zzz" := by
  intro lexicon text before found
  have hbefore : ∀ t ∈ before, t.mark = .once := by decide
  have hopening : Greedy.Opening (PatternToken.accepts lexicon "en" text) (min 9 text.size) before
      0 1 := ⟨by decide, by decide, .nil 1⟩
  obtain ⟨hanchored, _⟩ :=
    matchAt_consumer lexicon "3" "xxx $name2* zzz" none "en" text 0 9 "name2" before hbefore
  obtain ⟨_, hlast⟩ :=
    matchAt_consumer lexicon "3" "xxx $rest*" none "en" text 0 9 "rest" before hbefore
  have hanchor : Greedy.Anchored (PatternToken.accepts lexicon "en" text) (min 9 text.size) before
      ⟨.literal "zzz", .once⟩ [] 0 1 4 5 := by
    refine ⟨hopening, ⟨by decide, by decide, by decide, fun x hx hlt => ?_⟩, .nil 5⟩
    rcases (by omega : x = 1 ∨ x = 2 ∨ x = 3) with rfl | rfl | rfl <;> decide
  obtain ⟨_, hwindow, _, hcaptures⟩ := (hanchored ⟨.literal "zzz", .once⟩ [] (by decide +kernel) rfl
    (fun v => Term.noConfusion) (by decide)).2 1 4 5 hanchor
  obtain ⟨_, hwindow', hcaptures'⟩ := (hlast (by decide) (by decide +kernel)).2 1 hopening
  refine ⟨hbefore, hwindow, (hcaptures (by decide)).trans ?_, hwindow',
    (hcaptures' (by decide)).trans ?_⟩
  · decide +kernel
  · decide +kernel

end Matcher
end TokenPatterns
