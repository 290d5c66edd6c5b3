import Mathlib.Data.List.Find
import TokenPatterns.Matcher
import TokenPatterns.Proofs.Graph.Finality

/-! Walks do what the greedy matcher does.

A walk through the graph of a pattern is, state for place, a run of the greedy matcher over the
pattern's tokens (`run_walk_place`), and both make the same match of it (`run_matchAt_ofNodes`). So
what a compiled matcher gives can be said without its graph (`Matcher.run_matchAt_compile`). -/
namespace TokenPatterns

namespace Greedy

variable {items : List (Node × Mark)} (lexicon : Lexicon) (text : Text)

/-- The step of a walk that stands for a move. -/
def Move.toStep (m : Move) : Step := ⟨m.place.id, m.index⟩

theorem run_accepts_place {p : Place} (hp : p.Within items.length) (index : Nat) :
    ((Graph.ofNodes items).accepts text p.id index).run lexicon =
      (p.node (items.map (·.1))).accepts lexicon text index := by
  rw [Graph.accepts, state?_place hp]
  rfl

/-- A walk chooses the state of the place to which the matcher steps. -/
theorem run_choose_place (hitems : NoSkips (items.map (·.1))) {p : Place}
    (hp : p.Within items.length) (index : Nat) :
    ((Graph.ofNodes items).choose text index ((Graph.ofNodes items).next p.id)).run lexicon =
      (step items (accepts lexicon text items · index) p).map Place.id := by
  rw [Graph.run_choose, next_place hitems hp, List.find?_append, List.find?_map]
  have htokens : (tried items p).find? ((fun id =>
      ((Graph.ofNodes items).accepts text id index).run lexicon) ∘ tokenId) =
      (tried items p).find? (accepts lexicon text items · index) := by
    refine List.find?_congr fun j hj => ?_
    have hj := (candidates_bounds (mem_tried.mp hj)).2.2
    exact run_accepts_place lexicon text (p := ⟨j, 0⟩) ⟨by simpa using hj, .inl rfl⟩ index
  rw [htokens, step]
  cases (tried items p).find? (accepts lexicon text items · index) with
  | some j => rfl
  | none =>
    by_cases hpass : 1 ≤ p.token ∧ p.token < items.length ∧ p.passed < 2
    · have hskip : ((Graph.ofNodes items).accepts text
          (⟨p.token, p.passed + 1⟩ : Place).id index).run lexicon = true :=
        run_accepts_place lexicon text (p := ⟨p.token, p.passed + 1⟩)
          ⟨hp.1, .inr ⟨hpass.1, hpass.2.1, hpass.2.2⟩⟩ index
      simp only [if_pos hpass, Option.map_none, Option.none_or, List.find?_cons, hskip,
        Option.map_some]
    · simp only [if_neg hpass, Option.map_none, Option.none_or, List.find?_nil]

/-- A walk from the state of a place is the run from that place. -/
theorem run_walk_place (hitems : NoSkips (items.map (·.1))) {p : Place}
    (hp : p.Within items.length) (index remaining : Nat) :
    ((Graph.ofNodes items).walk text p.id index remaining).run lexicon =
      (run items (accepts lexicon text items) p index remaining).map Move.toStep := by
  induction remaining generalizing p index with
  | zero => rfl
  | succ remaining ih =>
    have hchoose := run_choose_place lexicon text hitems hp index
    cases hstep : step items (accepts lexicon text items · index) p with
    | none =>
      rw [hstep] at hchoose
      rw [Graph.run_walk_of_stuck lexicon _ text hchoose, run_of_stuck hstep, List.map_nil]
    | some q =>
      rw [hstep] at hchoose
      rw [Graph.run_walk_of_choose lexicon _ text hchoose, run_of_step hstep, List.map_cons,
        ih (step_within hstep).1]
      rfl

/-! ### What walks and runs give -/

theorem isSkip_place (hitems : NoSkips (items.map (·.1))) {p : Place} (hp : p.Within items.length)
    (hpos : 1 ≤ p.token) : (Graph.ofNodes items).isSkip p.id = !decide (p.passed = 0) := by
  rw [Graph.isSkip, state?_place hp, Option.any_some, Place.node, Node.isSkip]
  by_cases hpassed : p.passed = 0
  · have hnode := hitems.nodeAt hpos (by rw [List.length_map]; exact hp.1)
    rw [if_pos hpassed, beq_false_of_ne hnode, decide_eq_true hpassed, Bool.not_true]
  · rw [if_neg hpassed, decide_eq_false hpassed]
    rfl

theorem label?_place {m : Move} (hm : m.place.Within items.length) :
    (Graph.ofNodes items).label? m.place.id = label? (items.map (·.1)) m := by
  rw [Graph.label?, state?_place hm, Option.bind_some, Place.node, label?]
  split <;> rfl

/-- The state in which the walk of some moves ends. -/
theorem lastState_toStep (moves : List Move) :
    Graph.lastState (moves.map Move.toStep) = (lastPlace start moves).id := by
  rw [Graph.lastState, lastPlace, List.getLast?_map]
  cases moves.getLast? <;> rfl

/-- Walks of places of a pattern give what the moves to these places give. -/
theorem outcome_toStep (hitems : NoSkips (items.map (·.1))) {moves : List Move}
    (hmoves : ∀ m ∈ moves, m.place.Within items.length ∧ 1 ≤ m.place.token) :
    (Graph.ofNodes items).outcome text (moves.map Move.toStep) = outcome items text moves := by
  have hlast : (lastPlace start moves).Within items.length := by
    rw [lastPlace]
    cases hm : moves.getLast? with
    | none => exact start_within items.length
    | some m => exact (hmoves m (List.mem_of_getLast? hm)).1
  have hcount : (moves.map Move.toStep).countP (fun s => !(Graph.ofNodes items).isSkip s.state) =
      moves.countP (·.place.passed = 0) := by
    rw [List.countP_map]
    refine List.countP_congr fun m hm => ?_
    obtain ⟨hwithin, hpos⟩ := hmoves m hm
    rw [Function.comp_apply, Move.toStep, isSkip_place hitems hwithin hpos, Bool.not_not]
  have hcaptured : (Graph.ofNodes items).captured text (moves.map Move.toStep) =
      captured (items.map (·.1)) text moves := by
    rw [Graph.captured, captured, List.map_map]
    refine congrArg Capture.bindings (List.map_congr_left fun m hm => ?_)
    rw [← label?_place (hmoves m hm).1]
    rfl
  rw [Graph.outcome, outcome, lastState_toStep, isFinal_place hitems hlast, hcount, hcaptured,
    List.length_map]
  by_cases hend : IsEnd (items.map (·.2)) (lastPlace start moves)
  · rw [if_pos hend, if_pos (decide_eq_true hend)]
  · rw [if_neg hend, if_neg (by rw [decide_eq_false hend]; exact Bool.false_ne_true)]

/-- The walk through the graph of a sequence of nodes. -/
theorem run_walkAt_ofNodes (hitems : NoSkips (items.map (·.1))) (first stop : Nat) :
    ((Graph.ofNodes items).walkAt text first stop).run lexicon =
      (run items (accepts lexicon text items) start first (min stop text.size - first)).map
        Move.toStep := by
  rw [Graph.walkAt, show Graph.root = start.id from rfl,
    run_walk_place lexicon text hitems (start_within _)]

/-- Matching with the graph of a sequence of nodes is a run over them. -/
theorem run_matchAt_ofNodes (hitems : NoSkips (items.map (·.1))) (first stop : Nat) :
    ((Graph.ofNodes items).matchAt text first stop).run lexicon =
      outcome items text
        (run items (accepts lexicon text items) start first (min stop text.size - first)) := by
  rw [Graph.run_matchAt, run_walkAt_ofNodes lexicon text hitems,
    outcome_toStep text hitems run_within]

/-! ### Compiled patterns -/

/-- No node of a pattern token is a skip. -/
theorem noSkips_prepare (language : String) (tokens : List PatternToken) :
    NoSkips ((prepare lexicon language tokens).map (·.1)) := by
  intro node hnode
  obtain ⟨item, hitem, rfl⟩ := List.mem_map.mp hnode
  obtain ⟨t, _, rfl⟩ := List.mem_map.mp hitem
  rw [PatternToken.node, Inquiry.run_bind, Inquiry.run_pure]
  exact t.priority_ne_skip

theorem run_ofTokens (language : String) (tokens : List PatternToken) :
    (Graph.ofTokens language tokens).run lexicon =
      Graph.ofNodes (prepare lexicon language tokens) := by
  rw [Graph.ofTokens, Inquiry.run_bind, Inquiry.run_mapM, Inquiry.run_pure, List.zip_map', prepare]

/-- The steps of a walk through a compiled graph are moves, and its skips pass over a token. -/
theorem exists_move_of_mem_walkAt {language : String} {tokens : List PatternToken}
    {first stop : Nat} {s : Step}
    (h : s ∈ (((Graph.ofTokens language tokens).run lexicon).walkAt text first stop).run lexicon) :
    ∃ m ∈ run (prepare lexicon language tokens)
        (accepts lexicon text (prepare lexicon language tokens)) start first
        (min stop text.size - first),
      m.index = s.index ∧
      ((Graph.ofTokens language tokens).run lexicon).isSkip s.state =
        !decide (m.place.passed = 0) := by
  have hnodes := noSkips_prepare lexicon language tokens
  rw [run_ofTokens, run_walkAt_ofNodes lexicon text hnodes] at h
  obtain ⟨m, hm, rfl⟩ := List.mem_map.mp h
  obtain ⟨hwithin, hpos⟩ := run_within m hm
  refine ⟨m, hm, rfl, ?_⟩
  rw [run_ofTokens]
  exact isSkip_place hnodes hwithin hpos

/-- Matching with a compiled graph is matching with its tokens. -/
theorem matchAt_ofTokens (language : String) (tokens : List PatternToken) (first stop : Nat) :
    (((Graph.ofTokens language tokens).run lexicon).matchAt text first stop).run lexicon =
      matchAt lexicon language tokens text first stop := by
  rw [run_ofTokens, run_matchAt_ofNodes lexicon text (noSkips_prepare lexicon language tokens)]
  rfl

end Greedy

namespace Matcher

theorem graph_ofGraph (id pattern : String) (styles : Option String) (graph : Graph) :
    (ofGraph id pattern styles graph).graph = graph ∧
      (ofGraph id pattern styles graph).lexicon = none := by
  cases styles <;> exact ⟨rfl, rfl⟩

/-- A compiled matcher has no lexicon of its own, and the graph of its pattern. -/
theorem graph_compile (lexicon : Lexicon) (id pattern : String) (styles : Option String)
    (language : String) :
    ((compile id pattern styles language).run lexicon).graph =
        (Graph.ofTokens language (tokensOf pattern)).run lexicon ∧
      ((compile id pattern styles language).run lexicon).lexicon = none := by
  rw [compile, Inquiry.run_map, Graph.compile]
  exact graph_ofGraph ..

variable (lexicon : Lexicon) (id pattern : String) (styles : Option String) (language : String)
  (text : Text) (first stop : Nat)

theorem run_matchAt_compile :
    (((compile id pattern styles language).run lexicon).matchAt text first stop).run lexicon =
      Greedy.matchAt lexicon language (tokensOf pattern) text first stop := by
  obtain ⟨hgraph, hlexicon⟩ := graph_compile lexicon id pattern styles language
  rw [matchAt, hlexicon, hgraph]
  exact Greedy.matchAt_ofTokens lexicon text language (tokensOf pattern) first stop

theorem run_walkAt_compile :
    (((compile id pattern styles language).run lexicon).graph.walkAt text first stop).run lexicon =
      let items := Greedy.prepare lexicon language (tokensOf pattern)
      (Greedy.run items (Greedy.accepts lexicon text items) Greedy.start first
        (min stop text.size - first)).map Greedy.Move.toStep := by
  rw [(graph_compile lexicon id pattern styles language).1, Greedy.run_ofTokens]
  exact Greedy.run_walkAt_ofNodes lexicon text (Greedy.noSkips_prepare lexicon language _) first stop

theorem run_matchAt_standalone (digits : String → String) :
    ((standalone digits id pattern styles).matchAt text first stop).run lexicon =
      Greedy.matchAt (Dictionary.identity digits).lexicon Graph.defaultLanguage (tokensOf pattern) text
        first stop := by
  obtain ⟨hgraph, _⟩ :=
    graph_compile (Dictionary.identity digits).lexicon id pattern styles Graph.defaultLanguage
  rw [matchAt, standalone, hgraph, Inquiry.run_settle]
  exact Greedy.matchAt_ofTokens _ text _ (tokensOf pattern) first stop

/-- What a matcher gives is what the greedy matcher gives on the tokens of its pattern, with the
lexicon that answers or with that of the matcher itself. -/
theorem matchAt_eq_greedy (digits : String → String) :
    (((compile id pattern styles language).run lexicon).matchAt text first stop).run lexicon =
        Greedy.matchAt lexicon language (tokensOf pattern) text first stop ∧
      ((standalone digits id pattern styles).matchAt text first stop).run lexicon =
        Greedy.matchAt (Dictionary.identity digits).lexicon Graph.defaultLanguage (tokensOf pattern) text
          first stop :=
  ⟨run_matchAt_compile .., run_matchAt_standalone ..⟩

end Matcher
end TokenPatterns
