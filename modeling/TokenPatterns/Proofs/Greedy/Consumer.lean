import TokenPatterns.Proofs.Greedy.Captures

/-! Repeated variables.

A repeated variable takes one token of the text after another while the token behind it does not
accept, if that is a mandatory token and no variable itself, and gives way to it where it does
(`stepAt_anchor`, `runTo_consumed`). Under its name the match captures what it took. -/
namespace TokenPatterns

namespace PatternToken

variable (lexicon : Lexicon) (language : String)

theorem priority_node (t : PatternToken) :
    ((t.node language).run lexicon).priority = t.priority := by
  rw [node, Inquiry.run_bind, Inquiry.run_pure]

theorem accepts_variable (text : Text) (name : String) (mark : Mark) (index : Nat) :
    PatternToken.accepts lexicon language text ⟨.variable name, mark⟩ index = true := rfl

/-- Mandatory tokens other than variables are tried first. -/
theorem priority_of_mandatory {t : PatternToken} (ht : t.mark = .once)
    (hterm : ∀ name, t.term ≠ .variable name) : t.priority = .mandatory := by
  obtain ⟨term, mark⟩ := t
  obtain rfl : mark = .once := ht
  rcases term with _ | name | _ | _
  · rfl
  · exact absurd rfl (hterm name)
  · rfl
  · rfl

end PatternToken

namespace Greedy

variable {lexicon : Lexicon} {language : String} {tokens : List PatternToken} {text : Text}
  {stop : Nat}

/-! ### Steps at a repeated variable -/

/-- The places before a repeated variable and behind it, where a match has the same choice. -/
def AtConsumer (k : Nat) (p : Place) : Prop := p = ⟨k, 0⟩ ∨ p = ⟨k + 1, 0⟩

/-- From such a place a match may go on to the variable, to the token behind it, and further only
if that token may be left out. -/
theorem of_mem_candidates_consumer {marks : List Mark} {k j : Nat} {p : Place}
    (hvariable : markAt marks (k + 1) = .repeated) (hbefore : markAt marks k = .once)
    (hp : AtConsumer k p) (hj : j ∈ candidates marks p) :
    j = k + 1 ∨ k + 2 ≤ marks.length ∧ (j = k + 2 ∨ markAt marks (k + 2) ≠ .once) := by
  rcases hp with rfl | rfl
  · obtain ⟨hle, ⟨_, hrepeated, _⟩ | rfl | ⟨_, hfar, hbetween⟩⟩ := mem_candidates.mp hj
    · rw [hbefore] at hrepeated
      exact absurd hrepeated (by decide)
    · exact .inl rfl
    · refine .inr ⟨Nat.le_trans hfar hle, ?_⟩
      rcases Nat.eq_or_lt_of_le hfar with heq | hlt
      · exact .inl heq.symm
      · exact .inr (hbetween (k + 2) hlt (by omega))
  · obtain ⟨hle, ⟨_, _, rfl⟩ | rfl | ⟨hmandatory, _⟩⟩ := mem_candidates.mp hj
    · exact .inl rfl
    · exact .inr ⟨hle, .inl rfl⟩
    · rw [hvariable] at hmandatory
      exact absurd hmandatory (by simp)

theorem mem_candidates_consumer {marks : List Mark} {k : Nat} {p : Place}
    (hvariable : markAt marks (k + 1) = .repeated) (hbefore : markAt marks k = .once)
    (hp : AtConsumer k p) (hlt : k + 1 ≤ marks.length) :
    k + 1 ∈ candidates marks p ∧ (k + 2 ≤ marks.length → k + 2 ∈ candidates marks p) := by
  rcases hp with rfl | rfl
  · refine ⟨mem_candidates.mpr ⟨hlt, .inr (.inl rfl)⟩, fun hnext => ?_⟩
    refine mem_candidates.mpr ⟨hnext, .inr (.inr ⟨.inr hbefore, Nat.le_refl _, fun i hi hki => ?_⟩)⟩
    obtain rfl : i = k + 1 := by omega
    rw [hvariable]
    decide
  · exact ⟨mem_candidates.mpr ⟨hlt, .inl ⟨Nat.le_add_left 1 k, hvariable, rfl⟩⟩,
      fun hnext => mem_candidates.mpr ⟨hnext, .inr (.inl rfl)⟩⟩

section Consumer

variable {k : Nat} {name : String} {p : Place} {i : Nat}
  (hvariable : tokens[k]? = some ⟨.variable name, .repeated⟩)
  (hbefore : markAt (tokens.map (·.mark)) k = .once) (hp : AtConsumer k p)
include hvariable hbefore hp

/-- The token behind the variable is taken wherever it accepts. -/
theorem stepAt_anchor {anchor : PatternToken} (hanchor : tokens[k + 1]? = some anchor)
    (hmark : anchor.mark = .once) (hterm : ∀ v, anchor.term ≠ .variable v)
    (haccepts : anchor.accepts lexicon language text i = true) :
    stepAt lexicon language tokens text i p = some ⟨k + 2, 0⟩ := by
  have hvar := markAt_of_getElem? hvariable
  have hlt : k + 1 < tokens.length := (List.getElem?_eq_some_iff.mp hanchor).1
  refine step_eq_take ?_ ?_ ?_
  · rw [marks_prepare]
    apply (mem_candidates_consumer hvar hbefore hp _).2 <;> rw [List.length_map] <;> omega
  · rw [accepts_prepare hanchor]
    exact haccepts
  · intro j hj _
    rw [marks_prepare] at hj
    rcases of_mem_candidates_consumer hvar hbefore hp hj with rfl | ⟨_, rfl | hfar⟩
    · left
      rw [nodeAt_prepare hvariable, nodeAt_prepare hanchor, PatternToken.priority_node,
        PatternToken.priority_node, PatternToken.priority_of_mandatory hmark hterm]
      show Priority.rank .consume < Priority.rank .mandatory
      decide
    · exact ahead_refl _
    · exact absurd ((markAt_of_getElem? hanchor).trans hmark) hfar

/-- Where the token behind the variable does not accept, or there is none, the variable does. -/
theorem stepAt_consume (hno : ∀ anchor, tokens[k + 1]? = some anchor →
      anchor.mark = .once ∧ anchor.accepts lexicon language text i = false) :
    stepAt lexicon language tokens text i p = some ⟨k + 1, 0⟩ := by
  have hvar := markAt_of_getElem? hvariable
  have hlt : k < tokens.length := (List.getElem?_eq_some_iff.mp hvariable).1
  refine step_eq_take ?_ ?_ ?_
  · rw [marks_prepare]
    apply (mem_candidates_consumer hvar hbefore hp _).1
    rw [List.length_map]
    exact hlt
  · rw [accepts_prepare hvariable]
    exact PatternToken.accepts_variable ..
  · intro j hj haccepts
    rw [marks_prepare] at hj
    rcases of_mem_candidates_consumer hvar hbefore hp hj with rfl | ⟨hle, hor⟩
    · exact ahead_refl _
    · rw [List.length_map] at hle
      obtain ⟨anchor, hanchor⟩ : ∃ anchor, tokens[k + 1]? = some anchor :=
        ⟨_, List.getElem?_eq_getElem hle⟩
      obtain ⟨hmark, hrejects⟩ := hno anchor hanchor
      rcases hor with rfl | hfar
      · rw [accepts_prepare hanchor, hrejects] at haccepts
        exact absurd haccepts Bool.false_ne_true
      · exact absurd ((markAt_of_getElem? hanchor).trans hmark) hfar

end Consumer

/-! ### Runs at a repeated variable -/

/-- The moves that take some tokens of the text with the token behind the first `k` ones. -/
def consumed (k i d : Nat) : List Move := (List.range' i d).map fun x => ⟨⟨k + 1, 0⟩, x⟩

theorem length_consumed (k i d : Nat) : (consumed k i d).length = d := by
  rw [consumed, List.length_map, List.length_range']

theorem mem_consumed {k i d : Nat} {m : Move} :
    m ∈ consumed k i d ↔ m.place = ⟨k + 1, 0⟩ ∧ i ≤ m.index ∧ m.index < i + d := by
  rw [consumed, List.mem_map]
  constructor
  · intro hmem
    obtain ⟨x, hx, rfl⟩ := hmem
    exact ⟨rfl, List.mem_range'_1.mp hx⟩
  · intro hm
    obtain ⟨hplace, hx⟩ := hm
    exact ⟨m.index, List.mem_range'_1.mpr hx, by rw [← hplace]⟩

theorem countP_consumed (k i d : Nat) :
    (consumed k i d).countP (·.place.passed = 0) = d := by
  rw [List.countP_eq_length.mpr fun m hm => by simp [(mem_consumed.mp hm).1], length_consumed]

theorem lastPlace_consumed (k i d : Nat) : AtConsumer k (lastPlace ⟨k, 0⟩ (consumed k i d)) := by
  rw [lastPlace]
  cases hm : (consumed k i d).getLast? with
  | none => exact .inl rfl
  | some m => exact .inr (mem_consumed.mp (List.mem_of_getLast? hm)).1

/-- While the token behind it does not accept, a repeated variable takes one token of the text
after another. -/
theorem runTo_consumed {k d i : Nat} {name : String} {p : Place}
    (hvariable : tokens[k]? = some ⟨.variable name, .repeated⟩)
    (hbefore : markAt (tokens.map (·.mark)) k = .once) (hp : AtConsumer k p) (hstop : i + d ≤ stop)
    (hno : ∀ x, i ≤ x → x < i + d → ∀ anchor, tokens[k + 1]? = some anchor →
      anchor.mark = .once ∧ anchor.accepts lexicon language text x = false) :
    ∃ q, AtConsumer k q ∧ runTo lexicon language tokens text stop p i =
      consumed k i d ++ runTo lexicon language tokens text stop q (i + d) := by
  induction d generalizing p i with
  | zero => exact ⟨p, hp, rfl⟩
  | succ d ih =>
    have hstep : stepAt lexicon language tokens text i p = some ⟨k + 1, 0⟩ :=
      stepAt_consume hvariable hbefore hp (hno i (Nat.le_refl i) (by omega))
    obtain ⟨q, hq, hrun⟩ := ih (p := ⟨k + 1, 0⟩) (i := i + 1) (.inr rfl) (by omega)
      fun x hx hlt => hno x (by omega) (by omega)
    refine ⟨q, hq, ?_⟩
    rw [runTo_of_step (by omega) hstep, hrun, Nat.add_assoc, Nat.add_comm 1 d]
    rfl

theorem wordsUnder_consumed {k i d : Nat} {name : String} {mark : Mark}
    (hvariable : tokens[k]? = some ⟨.variable name, mark⟩) (h : i + d ≤ text.size) :
    wordsUnder ((prepare lexicon language tokens).map (·.1)) text name (consumed k i d) =
      text.between i (i + d) := by
  rw [← text.map_range'_words h, wordsUnder_of_eq, consumed, List.map_map]
  · rfl
  · intro m hm
    obtain ⟨place, index⟩ := m
    obtain rfl : place = ⟨k + 1, 0⟩ := (mem_consumed.mp hm).1
    rw [label?_take hvariable]
    rfl

end Greedy
end TokenPatterns
