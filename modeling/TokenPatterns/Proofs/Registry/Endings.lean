import TokenPatterns.Proofs.Graph.Tokens
import TokenPatterns.Proofs.Registry.History

/-! Where matches may end.

The final states of a compiled pattern are those of its last mandatory token and of every token after
it. They are found with a worklist, which becomes empty however the links run
(`Worklist.pending_steps`) and stays as it is then. A pattern in which no token is mandatory has no
final state: it may be registered, but nothing ever matches it. -/
namespace TokenPatterns

/-- The position of the last mandatory one of some tokens. -/
def IsLastMandatory (tokens : List PatternToken) (i : Nat) : Prop :=
  (∃ t, tokens[i]? = some t ∧ t.isMandatory = true) ∧
    ∀ j t, i < j → tokens[j]? = some t → t.isMandatory = false

theorem PatternToken.isMandatory_iff {t : PatternToken} : t.isMandatory = true ↔ t.mark = .once :=
  beq_iff_eq

namespace Greedy

/-! ### The tail of a pattern -/

section Tail

variable {tokens : List PatternToken}

theorem lastMandatory_iff {i : Nat} :
    LastMandatory (tokens.map (·.mark)) (i + 1) ↔ IsLastMandatory tokens i := by
  constructor
  · intro h
    have hi : i < tokens.length := Nat.lt_of_succ_le (by simpa using h.le)
    refine ⟨⟨tokens[i], List.getElem?_eq_getElem hi, ?_⟩, fun j t hj ht => ?_⟩
    · rw [PatternToken.isMandatory_iff, ← markAt_of_getElem? (List.getElem?_eq_getElem hi)]
      exact h.mark
    · have hlt : j < tokens.length := (List.getElem?_eq_some_iff.mp ht).1
      have hmark := h.after (j + 1) (by rw [List.length_map]; exact hlt) (Nat.succ_lt_succ hj)
      rw [markAt_of_getElem? ht] at hmark
      exact Bool.eq_false_iff.mpr (mt PatternToken.isMandatory_iff.mp hmark)
  · rintro ⟨⟨t, ht, hmandatory⟩, hafter⟩
    have hi : i < tokens.length := (List.getElem?_eq_some_iff.mp ht).1
    refine ⟨by rw [List.length_map]; exact hi, ?_, fun j hj hlt => ?_⟩
    · rw [markAt_of_getElem? ht]
      exact PatternToken.isMandatory_iff.mp hmandatory
    · obtain ⟨j, rfl⟩ : ∃ k, j = k + 1 := ⟨j - 1, by omega⟩
      have hj : j < tokens.length := Nat.lt_of_succ_le (by simpa using hj)
      have hother := List.getElem?_eq_getElem hj
      rw [markAt_of_getElem? hother, Ne, ← PatternToken.isMandatory_iff]
      exact Bool.eq_false_iff.mp (hafter j _ (Nat.lt_of_succ_lt_succ hlt) hother)

/-- A match may end behind a token if the last mandatory one is this token or one before it. -/
theorem isEnd_iff_tail {k : Nat} (hk : k < tokens.length) :
    IsEnd (tokens.map (·.mark)) ⟨k + 1, 0⟩ ↔ ∃ i ≤ k, IsLastMandatory tokens i := by
  obtain ⟨m, hm, _⟩ := exists_advanceAll (tokens.map (·.mark))
  rw [hm.isEnd_iff (by rw [List.length_map]; exact hk)]
  constructor
  · rintro ⟨_, hpos, hle⟩
    obtain ⟨i, rfl⟩ : ∃ i, m = i + 1 := ⟨m - 1, by omega⟩
    exact ⟨i, Nat.le_of_succ_le_succ hle, lastMandatory_iff.mp hm⟩
  · rintro ⟨i, hi, hlast⟩
    obtain rfl : m = i + 1 := hm.unique (lastMandatory_iff.mpr hlast)
    exact ⟨rfl, Nat.succ_pos i, Nat.succ_le_succ hi⟩

end Tail

/-! ### The worklist of a graph -/

section Graph

variable {items : List (Node × Mark)}

theorem any_state?_ofNodes (id : Nat) :
    ((Graph.ofNodes items).state? id).any (!·.node.isSkip) = markable items id := by
  rw [Graph.state?, Graph.ofNodes, Array.getElem?_mapIdx, Option.any_map]
  rfl

variable (hitems : NoSkips (items.map (·.1)))
include hitems

/-- The final states of a graph are the marks that its worklist leaves. -/
theorem map_isFinal_ofNodes :
    (Graph.ofNodes items).states.map (·.isFinal) = finalStates items := by
  obtain ⟨m, hm, _⟩ := exists_advanceAll (items.map (·.2))
  have hle : m ≤ items.length := by simpa using hm.le
  have hbound := (workedOff_explores hitems hle).bound
  rw [← finalStates_eq hm] at hbound
  refine Array.ext ?_ fun id hid hmarked => ?_
  · simp [Graph.ofNodes, hbound]
  · simp only [Graph.ofNodes, Array.getElem_map, Array.getElem_mapIdx]
    show (finalStates items)[id]?.getD false = _
    rw [Array.getElem?_eq_getElem hmarked, Option.getD_some]

/-- After more steps than there are links the worklist is empty, and its marks are the final
states. -/
theorem steps_ofNodes {n : Nat} (hn : (Frontier.start.allLinks (items.map (·.2))).length < n) :
    let g := Graph.ofNodes items
    let w := (Worklist.start g.size (Frontier.start.advanceAll (items.map (·.2))).lastMandatory).steps
      (Link.targets g.size (Frontier.start.allLinks (items.map (·.2))))
      (fun id => (g.state? id).any (!·.node.isSkip)) n
    w.pending = [] ∧ w.marked = g.states.map (·.isFinal) := by
  intro g w
  obtain ⟨m, hm, _⟩ := exists_advanceAll (items.map (·.2))
  have hsize : g.size = (Graph.layout (items.map (·.1))).toArray.size := by
    rw [size_ofNodes, List.size_toArray, length_layout, List.length_map]
  have hw : w = workedOff items m := by
    simp only [w, g, any_state?_ofNodes, hm.advanceAll]
    rw [show (Graph.ofNodes items).size = _ from hsize]
    exact Worklist.steps_eq_of_le (pending_workedOff m) hn
  rw [hw, map_isFinal_ofNodes hitems, finalStates_eq hm]
  exact ⟨pending_workedOff m, rfl⟩

/-- A graph is of use as soon as it has a token. -/
theorem isValid_ofNodes (hne : items ≠ []) : (Graph.ofNodes items).isValid = true := by
  have hlength : 1 ≤ (items.map (·.2)).length := by
    rw [List.length_map]
    exact List.length_pos_iff.mpr hne
  have hfirst : 1 ∈ tried items start :=
    mem_tried.mpr (mem_candidates.mpr ⟨hlength, .inr (.inl rfl)⟩)
  have hnext : tokenId 1 ∈ (Graph.ofNodes items).next Graph.root := by
    rw [show Graph.root = start.id from rfl, next_place hitems (start_within _)]
    exact List.mem_append_left _ (List.mem_map_of_mem hfirst)
  rw [Graph.isValid, Bool.not_eq_true', List.isEmpty_eq_false_iff]
  exact List.ne_nil_of_mem hnext

end Graph
end Greedy

namespace Matcher

/-! ### Matchers -/

section Reachable

variable {m : Matcher} (hm : m.Reachable)
include hm

/-- The states of a graph that are no skips are those of the tokens, in order. -/
theorem Reachable.tokenStates :
    m.graph.tokenStates =
      (List.range (tokensOf m.pattern).length).map fun k => Greedy.tokenId (k + 1) := by
  obtain ⟨items, hitems, hmarks, _, hgraph⟩ := hm.exists_items
  rw [hgraph, Graph.tokenStates_ofNodes hitems, length_of_marks_eq hmarks]

/-- The state of a token shows the text of its term. -/
theorem Reachable.display_tokenState {k : Nat} {t : PatternToken}
    (ht : (tokensOf m.pattern)[k]? = some t) :
    ∃ id s, m.graph.tokenStates[k]? = some id ∧ m.graph.state? id = some s ∧
      s.node.display = t.term.render := by
  obtain ⟨items, hitems, hmarks, hdisplays, hgraph⟩ := hm.exists_items
  have hk : k < (tokensOf m.pattern).length := (List.getElem?_eq_some_iff.mp ht).1
  have hlength := length_of_marks_eq hmarks
  have hplace : (⟨k + 1, 0⟩ : Greedy.Place).Within items.length := ⟨hlength ▸ hk, .inl rfl⟩
  have hstate := Greedy.state?_place hplace
  refine ⟨Greedy.tokenId (k + 1), _, ?_, by rw [hgraph]; exact hstate, ?_⟩
  · rw [hm.tokenStates, List.getElem?_map, List.getElem?_range hk]
    rfl
  · have hdisplay := congrArg (·[k]?) hdisplays
    simp only [List.getElem?_map, ht] at hdisplay
    obtain ⟨item, hitem, hrender⟩ := Option.map_eq_some_iff.mp hdisplay
    refine Eq.trans ?_ hrender
    simp [Greedy.Place.node, Greedy.nodeAt, hitem]

theorem Reachable.isFinal_iff {id : Nat} :
    m.graph.isFinal id = true ↔
      ∃ k, m.graph.tokenStates[k]? = some id ∧ ∃ i ≤ k, IsLastMandatory (tokensOf m.pattern) i := by
  obtain ⟨items, hitems, hmarks, _, hgraph⟩ := hm.exists_items
  have hlength := length_of_marks_eq hmarks
  have hfinal : ∀ k < (tokensOf m.pattern).length,
      m.graph.isFinal (Greedy.tokenId (k + 1)) = true ↔
        ∃ i ≤ k, IsLastMandatory (tokensOf m.pattern) i := fun k hk => by
    have hplace : (⟨k + 1, 0⟩ : Greedy.Place).Within items.length := ⟨hlength ▸ hk, .inl rfl⟩
    rw [hgraph, show Greedy.tokenId (k + 1) = (⟨k + 1, 0⟩ : Greedy.Place).id from rfl,
      Greedy.isFinal_place hitems hplace, decide_eq_true_iff, hmarks, Greedy.isEnd_iff_tail hk]
  have hstate : ∀ k, m.graph.tokenStates[k]? = some id ↔
      k < (tokensOf m.pattern).length ∧ Greedy.tokenId (k + 1) = id := fun k => by
    rw [hm.tokenStates, List.getElem?_map]
    by_cases hk : k < (tokensOf m.pattern).length
    · simp [hk]
    · simp [hk]
  constructor
  · intro h
    obtain ⟨k, hpos, hk, rfl⟩ := Greedy.exists_token_of_isFinal hitems (hgraph ▸ h)
    obtain ⟨k, rfl⟩ : ∃ i, k = i + 1 := ⟨k - 1, by omega⟩
    have hk : k < (tokensOf m.pattern).length := hlength ▸ hk
    exact ⟨k, (hstate k).mpr ⟨hk, rfl⟩, (hfinal k hk).mp h⟩
  · rintro ⟨k, hid, htail⟩
    obtain ⟨hk, rfl⟩ := (hstate k).mp hid
    exact (hfinal k hk).mpr htail

/-- The root and the skips between the tokens are no final states. -/
theorem Reachable.not_isFinal_of_isSkip {id : Nat} (hid : m.graph.isSkip id = true) :
    m.graph.isFinal id = false := by
  rw [Bool.eq_false_iff]
  intro hfinal
  obtain ⟨k, hk, _⟩ := hm.isFinal_iff.mp hfinal
  have hskip := (List.mem_filter.mp (List.mem_of_getElem? hk)).2
  rw [hid] at hskip
  cases hskip

theorem Reachable.isValid_of_ne_nil (hne : tokensOf m.pattern ≠ []) : m.isValid = true := by
  obtain ⟨items, hitems, hmarks, _, hgraph⟩ := hm.exists_items
  rw [isValid, hgraph]
  refine Greedy.isValid_ofNodes hitems (List.ne_nil_of_length_pos ?_)
  rw [length_of_marks_eq hmarks]
  exact List.length_pos_iff.mpr hne

end Reachable

/-- A matcher whose graph has no final state never matches, whatever answers its questions. -/
theorem matchAt_of_not_isFinal {m : Matcher} (h : ∀ id, m.graph.isFinal id = false) {σ : Type}
    (answer : Query → σ → SynsetSet × σ) (s : σ) (text : Text) (first stop : Nat) :
    ((m.matchAt text first stop).runWith answer s).1 = .none := by
  obtain ⟨steps, hsteps⟩ := exists_outcome answer s m text first stop
  rw [hsteps, Graph.outcome, h, if_neg Bool.false_ne_true]

/-- A match may end in the tail of a pattern. The worklist that looks for the final states is empty
after as many steps as there are links and one more, and more steps change nothing. It leaves the
marks on the states of the last mandatory token and of all tokens after it, and on no other state:
neither on the root nor on a skip, nor on any state if no token is mandatory. In that case nothing
matches, although the matcher may be registered as soon as its pattern has a token. -/
theorem ends_in_tail {m : Matcher} (hm : m.Reachable) :
    let tokens := tokensOf m.pattern
    let g := m.graph
    let links := Frontier.start.allLinks (tokens.map (·.mark))
    let last := (Frontier.start.advanceAll (tokens.map (·.mark))).lastMandatory
    let marking (n : Nat) := (Worklist.start g.size last).steps (Link.targets g.size links)
      (fun id => (g.state? id).any (!·.node.isSkip)) n
    (∀ n, links.length < n →
      (marking n).pending = [] ∧ (marking n).marked = g.states.map (·.isFinal)) ∧
    (g.tokenStates.length = tokens.length ∧ ∀ (k : Nat) t, tokens[k]? = some t →
      ∃ id s, g.tokenStates[k]? = some id ∧ g.state? id = some s ∧
        s.node.display = t.term.render) ∧
    (∀ id, g.isFinal id = true ↔
      ∃ k, g.tokenStates[k]? = some id ∧ ∃ i ≤ k, IsLastMandatory tokens i) ∧
    (g.isSkip Graph.root = true ∧ ∀ id, g.isSkip id = true → g.isFinal id = false) ∧
    ((∀ t ∈ tokens, t.isMandatory = false) →
      (∀ id, g.isFinal id = false) ∧
      (tokens ≠ [] → m.isValid = true ∧
        ∀ r : Registry, ∃ r', r.add m = .ok r' ∧ r'.matchers = r.matchers ++ [m]) ∧
      ∀ (σ : Type) (answer : Query → σ → SynsetSet × σ) (s : σ) (text : Text) (first stop : Nat),
        ((m.matchAt text first stop).runWith answer s).1 = .none) := by
  intro tokens g links last marking
  obtain ⟨items, hitems, hmarks, _, hgraph⟩ := hm.exists_items
  refine ⟨fun n hn => ?_, ⟨?_, fun k t ht => hm.display_tokenState ht⟩, fun id => hm.isFinal_iff,
    ⟨?_, fun id hid => hm.not_isFinal_of_isSkip hid⟩, fun hoptional => ?_⟩
  · have hsteps := Greedy.steps_ofNodes hitems (n := n) (by rw [hmarks]; exact hn)
    rw [hmarks, ← hgraph] at hsteps
    exact hsteps
  · rw [hm.tokenStates, List.length_map, List.length_range]
  · rw [show g = _ from hgraph]
    exact Greedy.isSkip_root
  · have hnone : ∀ id, g.isFinal id = false := by
      intro id
      rw [Bool.eq_false_iff, Ne, hm.isFinal_iff]
      rintro ⟨_, _, i, _, ⟨t, ht, hmandatory⟩, _⟩
      rw [hoptional t (List.mem_of_getElem? ht)] at hmandatory
      cases hmandatory
    refine ⟨hnone, fun hne => ?_, fun σ answer s text first stop =>
      matchAt_of_not_isFinal hnone answer s text first stop⟩
    have hvalid : m.isValid = true := hm.isValid_of_ne_nil hne
    exact ⟨hvalid, fun r => ⟨_, Registry.add_of_valid hvalid, rfl⟩⟩

/-- A tail with a repeated token in it, and a pattern in which every token may be left out. -/
theorem ends_in_tail_repeated :
    let answer : Query → Unit → SynsetSet × Unit := fun q s => (Dictionary.empty.lexicon q, s)
    let m := ((compile "1" "$a* xxx <NN*>* yyy?" none "en").runWith answer ()).1
    let loose := ((compile "2" "xxx? $rest*" none "en").runWith answer ()).1
    (m.Reachable ∧ IsLastMandatory (tokensOf m.pattern) 1 ∧ m.graph.tokenStates = [1, 2, 5, 8] ∧
      m.graph.isFinal 2 = true ∧ m.graph.isFinal 8 = true ∧ m.graph.isFinal Graph.root = false) ∧
    (loose.Reachable ∧ tokensOf loose.pattern ≠ [] ∧
      (∀ t ∈ tokensOf loose.pattern, t.isMandatory = false) ∧
      (∃ r, Registry.add {} loose = .ok r) ∧
      ((loose.matchAt (Text.ofWords ["xxx", "yyy"]) 0 2).runWith answer ()).1 = .none) := by
  intro answer m loose
  have hm : m.Reachable := .compiled answer () ..
  have hloose : loose.Reachable := .compiled answer () ..
  have htokens : tokensOf m.pattern = [⟨.variable "a", .repeated⟩, ⟨.literal "xxx", .once⟩,
      ⟨.tagged "NN*" none, .repeated⟩, ⟨.literal "yyy", .optional⟩] := by
    decide +kernel
  have hlast : IsLastMandatory (tokensOf m.pattern) 1 := by
    rw [htokens]
    refine ⟨⟨_, rfl, rfl⟩, fun j t hj ht => ?_⟩
    match j with
    | 2 | 3 => cases ht; rfl
    | j + 4 => cases ht
  have hne : tokensOf loose.pattern ≠ [] := by decide +kernel
  have hoptional : ∀ t ∈ tokensOf loose.pattern, t.isMandatory = false := by decide +kernel
  have hstates : m.graph.tokenStates = [1, 2, 5, 8] := by decide +kernel
  obtain ⟨_, _, hfinal, ⟨hroot, hskip⟩, _⟩ := ends_in_tail hm
  obtain ⟨_, _, _, _, hnone⟩ := ends_in_tail hloose
  obtain ⟨_, hvalid, hmatch⟩ := hnone hoptional
  obtain ⟨r, hr, _⟩ := (hvalid hne).2 {}
  refine ⟨⟨hm, hlast, hstates, ?_, ?_, hskip _ hroot⟩, hloose, hne, hoptional, ⟨r, hr⟩,
    hmatch Unit answer () _ 0 2⟩
  · exact (hfinal 2).mpr ⟨1, by rw [hstates]; rfl, 1, Nat.le_refl 1, hlast⟩
  · exact (hfinal 8).mpr ⟨3, by rw [hstates]; rfl, 1, by decide, hlast⟩

/-- Where a pattern has no tokens, none of them is mandatory, but the matcher is of no use and is not
registered. -/
theorem not_isValid_without_tokens :
    let m := standalone (fun word => word) "m" "" none
    (∀ t ∈ tokensOf m.pattern, t.isMandatory = false) ∧ m.isValid = false ∧
      Registry.add {} m = .error (.noTokens "" "m") := by
  intro m
  have hvalid : m.isValid = false := by decide +kernel
  exact ⟨by decide +kernel, hvalid, Registry.add_of_invalid hvalid⟩

end Matcher
end TokenPatterns
