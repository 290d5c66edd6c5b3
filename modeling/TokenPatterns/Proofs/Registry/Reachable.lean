import TokenPatterns.Registry
import TokenPatterns.Proofs.Greedy.Simulation

/-! The states that a registry can be in.

A matcher comes from a pattern, whatever answers the questions that compiling it asks; a registry
starts empty or from a configuration, and matchers come to it and are removed. So each matcher of a
registry has the graph of a sequence of nodes (`Reachable.compiled`). A walk that ends at a final
state of such a graph has taken a token, which is why every match counts one
(`Compiled.isMatch_outcome`), however the questions asked along the way are answered. -/
namespace TokenPatterns

/-! ### Results listed -/

namespace Inquiry

variable {α β σ : Type} (answer : Query → σ → SynsetSet × σ) (f : α → Inquiry β)

theorem runWith_mapM_cons (a : α) (as : List α) (s : σ) :
    ((a :: as).mapM f).runWith answer s =
      (((f a).runWith answer s).1 ::
          ((as.mapM f).runWith answer ((f a).runWith answer s).2).1,
        ((as.mapM f).runWith answer ((f a).runWith answer s).2).2) := by
  simp only [List.mapM_cons, runWith_bind, runWith_pure]

theorem length_runWith_mapM (as : List α) (s : σ) :
    ((as.mapM f).runWith answer s).1.length = as.length := by
  induction as generalizing s with
  | nil => rfl
  | cons a as ih => rw [runWith_mapM_cons, List.length_cons, List.length_cons, ih]

/-- What holds of the result for a member in every state holds of the listed result. -/
theorem map_runWith_mapM {γ : Type} {g : β → γ} {g' : α → γ}
    (h : ∀ a s, g ((f a).runWith answer s).1 = g' a) (as : List α) (s : σ) :
    ((as.mapM f).runWith answer s).1.map g = as.map g' := by
  induction as generalizing s with
  | nil => rfl
  | cons a as ih => rw [runWith_mapM_cons, List.map_cons, List.map_cons, h, ih]

/-- Each listed result is that of its member, in the state that its turn finds. -/
theorem exists_of_getElem?_mapM {as : List α} {s : σ} {i : Nat} {b : β}
    (h : ((as.mapM f).runWith answer s).1[i]? = some b) :
    ∃ a s, as[i]? = some a ∧ ((f a).runWith answer s).1 = b := by
  induction as generalizing s i with
  | nil => cases h
  | cons a as ih =>
    rw [runWith_mapM_cons] at h
    cases i with
    | zero => exact ⟨a, s, rfl, Option.some.inj h⟩
    | succ i => exact ih h

end Inquiry

/-! ### Graphs of patterns -/

namespace Graph

/-- A graph that is made of the nodes of some pattern tokens. -/
def Compiled (g : Graph) : Prop :=
  ∃ items : List (Node × Mark), Greedy.NoSkips (items.map (·.1)) ∧ g = ofNodes items

/-- A compiled pattern has the graph of some nodes, none of them a skip, with the texts and the
marks of its tokens. -/
theorem exists_items_runWith {σ : Type} (answer : Query → σ → SynsetSet × σ) (s : σ)
    (language pattern : String) :
    ∃ items : List (Node × Mark), Greedy.NoSkips (items.map (·.1)) ∧
      items.map (·.2) = (tokensOf pattern).map (·.mark) ∧
      items.map (·.1.display) = (tokensOf pattern).map (·.term.render) ∧
      ((compile language pattern).runWith answer s).1 = ofNodes items := by
  rw [compile, ofTokens, Inquiry.runWith_bind, Inquiry.runWith_pure]
  refine ⟨_, fun node hnode => ?_, List.map_snd_zip ?_, ?_, rfl⟩
  · obtain ⟨item, hitem, rfl⟩ := List.mem_map.mp hnode
    obtain ⟨i, hi⟩ := List.getElem?_of_mem (List.of_mem_zip hitem).1
    obtain ⟨t, s, _, ht⟩ := Inquiry.exists_of_getElem?_mapM answer _ hi
    rw [← ht, PatternToken.node, Inquiry.runWith_bind, Inquiry.runWith_pure]
    exact t.priority_ne_skip
  · rw [List.length_map, Inquiry.length_runWith_mapM]
  · show List.map (Node.display ∘ Prod.fst) _ = _
    rw [← List.map_map, List.map_fst_zip]
    · refine Inquiry.map_runWith_mapM answer _ (fun t s => ?_) _ s
      rw [PatternToken.node, Inquiry.runWith_bind, Inquiry.runWith_pure]
    · rw [List.length_map, Inquiry.length_runWith_mapM]

namespace Compiled

variable {g : Graph}

/-- A match ends at the node of a token. -/
theorem token_of_isFinal (hg : g.Compiled) {id : Nat} (h : g.isFinal id = true) :
    g.isSkip id = false ∧ id ≠ root := by
  obtain ⟨items, hitems, rfl⟩ := hg
  obtain ⟨k, hpos, hk, rfl⟩ := Greedy.exists_token_of_isFinal hitems h
  have hskip := Greedy.isSkip_place hitems (p := ⟨k, 0⟩) ⟨hk, .inl rfl⟩ hpos
  exact ⟨hskip, fun hroot => absurd (Greedy.tokenId_eq_zero.mp hroot) (Nat.ne_of_gt hpos)⟩

/-- What a walk gives is a match where it counts a token. -/
theorem isMatch_outcome (hg : g.Compiled) (text : Text) (steps : List Step) :
    (g.outcome text steps).isMatch = true ↔ (g.outcome text steps).matchCount ≠ 0 := by
  cases hfinal : g.isFinal (lastState steps) with
  | false => simp [outcome, hfinal, PatternMatch.isMatch, PatternMatch.none]
  | true =>
    obtain ⟨hskip, hroot⟩ := hg.token_of_isFinal hfinal
    have hcount : 0 < steps.countP fun s => !g.isSkip s.state := by
      rw [lastState] at hskip hroot
      cases hlast : steps.getLast? with
      | none => exact absurd (by rw [hlast]; rfl) hroot
      | some s =>
        rw [hlast] at hskip
        refine List.countP_pos_iff.mpr ⟨s, List.mem_of_getLast? hlast, ?_⟩
        rw [show g.isSkip s.state = false from hskip, Bool.not_false]
    rw [outcome, if_pos hfinal, PatternMatch.isMatch, decide_eq_true hcount, Bool.true_or]
    exact ⟨fun _ => Nat.ne_of_gt hcount, fun _ => rfl⟩

end Compiled
end Graph

/-! ### Matchers and registries -/

/-- The matchers that there can be: compiled patterns, whatever answers the questions asked on the
way, perhaps with a lexicon of their own and with labels added. -/
inductive Matcher.Reachable : Matcher → Prop
  | compiled {σ : Type} (answer : Query → σ → SynsetSet × σ) (s : σ) (id pattern : String)
      (styles : Option String) (language : String) :
      Reachable ((compile id pattern styles language).runWith answer s).1
  | owning {m : Matcher} (own : Option Lexicon) : Reachable m → Reachable {m with lexicon := own}
  | addStyleText {m : Matcher} (styles : String) : Reachable m → Reachable (m.addStyleText styles)
  | addStyles {m : Matcher} (styles : Bindings) : Reachable m → Reachable (m.addStyles styles)
  | addStyle {m : Matcher} (key value : String) : Reachable m → Reachable (m.addStyle key value)

/-- The registries that there can be: the empty one, those of configurations, and what adding and
removing matchers makes of them. -/
inductive Registry.Reachable : Registry → Prop
  | empty : Reachable {}
  | configured {σ : Type} (answer : Query → σ → SynsetSet × σ) (s : σ) {c : Config}
      {r : Inquiry Registry} : ofConfig c = .ok r → Reachable (r.runWith answer s).1
  | add {r r' : Registry} {m : Matcher} : Reachable r → m.Reachable → r.add m = .ok r' → Reachable r'
  | addIfValid {r : Registry} {m : Matcher} : Reachable r → m.Reachable → Reachable (r.addIfValid m)
  | remove {r : Registry} (id : String) : Reachable r → Reachable (r.remove id)

theorem Matcher.pattern_ofGraph (id pattern : String) (styles : Option String) (graph : Graph) :
    (ofGraph id pattern styles graph).pattern = pattern := by
  cases styles <;> rfl

theorem length_of_marks_eq {items : List (Node × Mark)} {tokens : List PatternToken}
    (h : items.map (·.2) = tokens.map (·.mark)) : items.length = tokens.length := by
  simpa using congrArg List.length h

/-- The graph of a matcher has the texts and the marks of the tokens of its pattern. -/
theorem Matcher.Reachable.exists_items {m : Matcher} (h : m.Reachable) :
    ∃ items : List (Node × Mark), Greedy.NoSkips (items.map (·.1)) ∧
      items.map (·.2) = (tokensOf m.pattern).map (·.mark) ∧
      items.map (·.1.display) = (tokensOf m.pattern).map (·.term.render) ∧
      m.graph = Graph.ofNodes items := by
  induction h with
  | compiled answer s id pattern styles language =>
    rw [compile, Inquiry.runWith_map, (graph_ofGraph ..).1, pattern_ofGraph]
    exact Graph.exists_items_runWith answer s language pattern
  | owning _ _ ih | addStyleText _ _ ih | addStyles _ _ ih | addStyle _ _ _ ih => exact ih

theorem Matcher.Reachable.compiled_graph {m : Matcher} (h : m.Reachable) : m.graph.Compiled := by
  obtain ⟨items, hitems, _, _, hgraph⟩ := h.exists_items
  exact ⟨items, hitems, hgraph⟩

namespace Registry

/-- A matcher that is registered stands behind all the others. -/
theorem matchers_add {r r' : Registry} {m : Matcher} (h : r.add m = .ok r') :
    r'.matchers = r.matchers ++ [m] := by
  rw [add] at h
  split at h
  · rw [← Except.ok.inj h]
  · cases h

theorem matchers_addIfValid {r : Registry} {m : Matcher} (h : m.isValid = true) :
    (r.addIfValid m).matchers = r.matchers ++ [m] := by
  simp only [addIfValid, add, if_pos h]

/-- A registry with a matcher of which it is not known whether its pattern has tokens. -/
theorem mem_addIfValid {r : Registry} {m other : Matcher} (h : other ∈ (r.addIfValid m).matchers) :
    other ∈ r.matchers ∨ other = m := by
  rw [addIfValid] at h
  split at h
  · next r' hadd =>
    rw [matchers_add hadd] at h
    exact (List.mem_append.mp h).imp_right List.mem_singleton.mp
  · exact .inl h

/-- The matchers of a configuration are compiled from its patterns. -/
theorem reachable_of_mem_addDefinitions {σ : Type} (answer : Query → σ → SynsetSet × σ) (c : Config)
    {ds : List PatternDefinition} {r : Registry} {s : σ} (hr : ∀ m ∈ r.matchers, m.Reachable) :
    ∀ m ∈ ((addDefinitions c ds r).runWith answer s).1.matchers, m.Reachable := by
  induction ds generalizing r s with
  | nil => exact hr
  | cons d ds ih =>
    rw [addDefinitions, Inquiry.runWith_bind]
    refine ih fun m hm => ?_
    rcases mem_addIfValid hm with hm | rfl
    · exact hr m hm
    · exact .compiled answer s d.id d.pattern d.styles (c.languageOf d)

namespace Reachable

variable {r : Registry}

theorem matchers (h : r.Reachable) : ∀ m ∈ r.matchers, m.Reachable := by
  induction h with
  | empty => exact fun m hm => absurd hm List.not_mem_nil
  | configured answer s hconfig =>
    rw [ofConfig] at hconfig
    split at hconfig
    · cases hconfig
    · rw [← Except.ok.inj hconfig]
      exact reachable_of_mem_addDefinitions answer _ fun m hm => absurd hm List.not_mem_nil
  | add _ hm hadd ih =>
    intro other hother
    rw [matchers_add hadd] at hother
    rcases List.mem_append.mp hother with hother | hother
    · exact ih other hother
    · exact List.mem_singleton.mp hother ▸ hm
  | addIfValid _ hm ih =>
    intro other hother
    rcases mem_addIfValid hother with hother | rfl
    · exact ih other hother
    · exact hm
  | remove id _ ih => exact fun m hm => ih m (List.mem_filter.mp hm).1

/-- Each matcher of a registry has the graph of a pattern. -/
theorem compiled (h : r.Reachable) : ∀ m ∈ r.matchers, m.graph.Compiled :=
  fun m hm => (h.matchers m hm).compiled_graph

end Reachable
end Registry

/-! ### Matches of a reachable matcher -/

namespace Matcher

/-- What a matcher gives is what some walk through its graph gives. -/
theorem exists_outcome {σ : Type} (answer : Query → σ → SynsetSet × σ) (s : σ) (m : Matcher)
    (text : Text) (start stop : Nat) :
    ∃ steps, ((m.matchAt text start stop).runWith answer s).1 = m.graph.outcome text steps := by
  rw [matchAt]
  cases m.lexicon with
  | none => exact ⟨_, by rw [Graph.matchAt, Inquiry.runWith_map]⟩
  | some own => exact ⟨_, Graph.run_matchAt own m.graph text start stop⟩

/-- Every match counts a token. -/
theorem isMatch_iff {σ : Type} (answer : Query → σ → SynsetSet × σ) (s : σ) {m : Matcher}
    (hm : m.graph.Compiled) (text : Text) (start stop : Nat) :
    let found := ((m.matchAt text start stop).runWith answer s).1
    found.isMatch = true ↔ found.matchCount ≠ 0 := by
  intro found
  obtain ⟨steps, hsteps⟩ := exists_outcome answer s m text start stop
  rw [show found = _ from hsteps]
  exact hm.isMatch_outcome text steps

end Matcher
end TokenPatterns
