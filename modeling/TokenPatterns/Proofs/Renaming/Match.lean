import Mathlib.Data.List.Nodup
import Mathlib.Data.String.Basic
import TokenPatterns.Proofs.Phrases
import TokenPatterns.Proofs.Registry.Reachable
import TokenPatterns.Proofs.Renaming.Graph
import TokenPatterns.Proofs.Renaming.Pattern

/-! Matching with renamed variables.

The name of a variable is compared with the names of other variables when successors are sorted, and
it is the key of what the variable captures. So where a renaming keeps the order of the names, the
renamed pattern has the graph of the pattern with its nodes renamed (`Renaming.runWith_compile`). Both
then walk alike, asking the same questions, and what they capture differs in the names alone
(`Matcher.matchAt_renamed`). -/
namespace TokenPatterns

/-! ### Keys of captures -/

/-- Whether a key of captures is a label with its sign in front or the name of a variable. -/
def IsKey (key : String) : Prop := key.toList.head? = some '#' ∨ IsName key

namespace Renaming

variable (ρ : Renaming)

/-- The key for another one: labels stay as they are. -/
def key (key : String) : String := if key.toList.head? = some '#' then key else ρ.apply key

theorem key_of_label {key : String} (h : key.toList.head? = some '#') : ρ.key key = key := if_pos h

theorem key_of_name {name : String} (h : IsName name) : ρ.key name = ρ.apply name :=
  if_neg h.unlabelled

theorem lt_iff {x y : String} (hx : IsName x) (hy : IsName y) :
    ρ.apply x < ρ.apply y ↔ x < y := by
  refine ⟨fun h => ?_, ρ.lt hx hy⟩
  rcases lt_trichotomy x y with hlt | rfl | hlt
  · exact hlt
  · exact absurd h (lt_irrefl _)
  · exact absurd h (lt_asymm (ρ.lt hy hx hlt))

/-- Different names get different names. -/
theorem apply_injective {x y : String} (hx : IsName x) (hy : IsName y)
    (h : ρ.apply x = ρ.apply y) : x = y := by
  have hxy : ¬x < y := fun hlt => absurd h (ne_of_lt (ρ.lt hx hy hlt))
  have hyx : ¬y < x := fun hlt => absurd h.symm (ne_of_lt (ρ.lt hy hx hlt))
  exact eq_of_le_of_not_lt (not_lt.mp hyx) hxy

theorem key_injective {x y : String} (hx : IsKey x) (hy : IsKey y) (h : ρ.key x = ρ.key y) :
    x = y := by
  rcases hx with hx | hx <;> rcases hy with hy | hy
  · rwa [ρ.key_of_label hx, ρ.key_of_label hy] at h
  · rw [ρ.key_of_label hx, ρ.key_of_name hy] at h
    exact absurd (h ▸ hx) (ρ.isName hy).unlabelled
  · rw [ρ.key_of_name hx, ρ.key_of_label hy] at h
    exact absurd (h ▸ hy) (ρ.isName hx).unlabelled
  · rw [ρ.key_of_name hx, ρ.key_of_name hy] at h
    exact ρ.apply_injective hx hy h

end Renaming

/-! ### Captures under other keys -/

namespace Capture

section Keys

variable {key : String → String} {P : String → Prop}
  (hkey : ∀ {x y : String}, P x → P y → key x = key y → x = y)
  {labelled : List (Option String × String)} (hP : ∀ p ∈ labelled, ∀ label ∈ p.1, P label)

/-- Words with their labels replaced. -/
def mapLabels (key : String → String) (labelled : List (Option String × String)) :
    List (Option String × String) :=
  labelled.map fun (label?, word) => (label?.map key, word)

/-- A label under which something is captured came with a word. -/
theorem exists_labelled {label value : String} (h : (bindings labelled)[label]? = some value) :
    ∃ p ∈ labelled, p.1 = some label := by
  rw [getElem?_bindings] at h
  obtain ⟨word, hword⟩ : ∃ word, word ∈ wordsOf label labelled := by
    refine List.exists_mem_of_ne_nil _ fun hnil => ?_
    rw [hnil] at h
    cases h
  obtain ⟨⟨label?, other⟩, hp, hlabel⟩ := List.mem_filterMap.mp hword
  refine ⟨_, hp, ?_⟩
  by_contra hne
  exact absurd (hlabel.symm.trans (if_neg hne)) (Option.some_ne_none word)

include hkey hP

theorem wordsOf_mapLabels {label : String} (hlabel : P label) :
    wordsOf (key label) (mapLabels key labelled) = wordsOf label labelled := by
  rw [wordsOf, mapLabels, List.filterMap_map, wordsOf]
  refine List.filterMap_congr fun p hp => ?_
  obtain ⟨label?, word⟩ := p
  cases label? with
  | none => rfl
  | some other =>
    have hiff : some (key other) = some (key label) ↔ some other = some label :=
      ⟨fun h => congrArg some (hkey (hP _ hp other rfl) hlabel (Option.some.inj h)),
        fun h => congrArg (Option.map key) h⟩
    exact if_congr hiff rfl rfl

theorem getElem?_mapLabels {label : String} (hlabel : P label) :
    (bindings (mapLabels key labelled))[key label]? = (bindings labelled)[label]? := by
  rw [getElem?_bindings, wordsOf_mapLabels hkey hP hlabel, getElem?_bindings]

/-- Replacing labels replaces the keys of what is captured. -/
theorem bindings_mapLabels :
    (bindings (mapLabels key labelled)).toList.Perm
      ((bindings labelled).toList.map fun (label, value) => (key label, value)) := by
  have hkeys : ∀ p ∈ (bindings labelled).toList, P p.1 := by
    intro p hp
    obtain ⟨q, hq, hlabel⟩ := exists_labelled (Std.ExtTreeMap.mem_toList_iff_getElem?_eq_some.mp hp)
    exact hP q hq p.1 hlabel
  have hnodup (b : Bindings) : b.toList.Nodup :=
    .of_map Prod.fst (by rw [Std.ExtTreeMap.map_fst_toList_eq_keys]; exact Std.ExtTreeMap.nodup_keys)
  have hmap : ((bindings labelled).toList.map fun (label, value) => (key label, value)).Nodup := by
    refine (hnodup _).map_on fun p hp q hq h => ?_
    obtain ⟨hfst, hsnd⟩ := Prod.mk.inj h
    exact Prod.ext (hkey (hkeys p hp) (hkeys q hq) hfst) hsnd
  refine (List.perm_ext_iff_of_nodup (hnodup _) hmap).mpr fun ⟨label, value⟩ => ?_
  rw [Std.ExtTreeMap.mem_toList_iff_getElem?_eq_some, List.mem_map]
  constructor
  · intro h
    obtain ⟨p, hp, hlabel⟩ := exists_labelled h
    obtain ⟨⟨label?, word⟩, hq, rfl⟩ := List.mem_map.mp hp
    obtain ⟨old, rfl, rfl⟩ := Option.map_eq_some_iff.mp hlabel
    rw [getElem?_mapLabels hkey hP (hP _ hq old rfl)] at h
    exact ⟨(old, value), Std.ExtTreeMap.mem_toList_iff_getElem?_eq_some.mpr h, rfl⟩
  · rintro ⟨⟨old, value'⟩, hold, heq⟩
    obtain ⟨rfl, rfl⟩ := Prod.mk.inj heq
    rw [getElem?_mapLabels hkey hP (hkeys _ hold)]
    exact Std.ExtTreeMap.mem_toList_iff_getElem?_eq_some.mp hold

end Keys

end Capture

/-! ### Renamed nodes -/

namespace Node

/-- Whether a node is that of a variable with a name, or of something else whose label, if it has
one, has its sign in front. -/
inductive Proper : Node → Prop
  | named {name : String} (h : IsName name) :
      Proper ⟨.variable, (Term.variable name).render, .consume, some name⟩
  | other {test : Test} {display : String} {priority : Priority} {label? : Option String}
      (htest : test ≠ .variable) (hpriority : priority ≠ .consume)
      (hlabel : ∀ label ∈ label?, label.toList.head? = some '#') :
      Proper ⟨test, display, priority, label?⟩

theorem proper_skip : skip.Proper :=
  .other Test.noConfusion Priority.noConfusion fun _ h => absurd h (Option.not_mem_none _)

/-- The node of a variable goes before that of another one by their names. -/
theorem before_variable (x y : String) :
    before ⟨.variable, (Term.variable x).render, .consume, some x⟩
      ⟨.variable, (Term.variable y).render, .consume, some y⟩ = decide (y < x) := by
  have hlt : (Term.variable y).render < (Term.variable x).render ↔ y < x := by
    rw [String.lt_iff_toList_lt, Term.toList_render_variable, Term.toList_render_variable,
      List.cons_lt_cons_iff, String.lt_iff_toList_lt]
    simp
  rw [before, beq_self_eq_true, Bool.true_and, decide_eq_false (Nat.lt_irrefl _),
    Bool.false_or, decide_eq_decide.mpr hlt]

theorem before_of_priority_ne {a b : Node} (h : a.priority ≠ b.priority) :
    a.before b = decide (b.priority.rank < a.priority.rank) := by
  have hrank : (b.priority.rank == a.priority.rank) = false := by
    revert h
    cases a.priority <;> cases b.priority <;> decide
  rw [before, hrank, Bool.false_and, Bool.or_false]

end Node

namespace Renaming

variable (ρ : Renaming)

/-- A node with its variable renamed. -/
def node (n : Node) : Node :=
  match n.test, n.label with
  | .variable, some name =>
    {n with display := (Term.variable (ρ.apply name)).render, label := some (ρ.apply name)}
  | _, _ => n

theorem node_of_other {n : Node} (h : n.test ≠ .variable) : ρ.node n = n := by
  rw [node]
  split
  · next htest _ => exact absurd htest h
  · rfl

theorem refits_node : Node.Refits ρ.node where
  test n := by rw [node]; split <;> rfl
  priority n := by rw [node]; split <;> rfl
  skip := rfl

theorem label_node {n : Node} (hn : n.Proper) :
    (ρ.node n).label = n.label.map ρ.key ∧ ∀ label ∈ n.label, IsKey label := by
  cases hn with
  | named h =>
    refine ⟨congrArg some (ρ.key_of_name h).symm, fun label hlabel => ?_⟩
    exact .inr (Option.some.inj hlabel ▸ h)
  | @other _ _ _ label? htest _ hlabel =>
    rw [ρ.node_of_other htest]
    refine ⟨?_, fun label h => .inl (hlabel label h)⟩
    cases label? with
    | none => rfl
    | some label => exact congrArg some (ρ.key_of_label (hlabel label rfl)).symm

theorem before_node_of_priority_ne {a b : Node} (h : a.priority ≠ b.priority) :
    (ρ.node a).before (ρ.node b) = a.before b := by
  have hpriority := ρ.refits_node.priority
  rw [Node.before_of_priority_ne h, Node.before_of_priority_ne (by rwa [hpriority, hpriority]),
    hpriority, hpriority]

/-- Renamed nodes are tried in the same order: only variables have the priority of a variable. -/
theorem before_node {a b : Node} (ha : a.Proper) (hb : b.Proper) :
    (ρ.node a).before (ρ.node b) = a.before b := by
  cases ha with
  | named hx =>
    cases hb with
    | named hy =>
      rw [Node.before_variable]
      exact (Node.before_variable ..).trans (decide_eq_decide.mpr (ρ.lt_iff hy hx))
    | other _ hpriority => exact ρ.before_node_of_priority_ne hpriority.symm
  | other htest hpriority =>
    cases hb with
    | named => exact ρ.before_node_of_priority_ne hpriority
    | other htest' => rw [ρ.node_of_other htest, ρ.node_of_other htest']

/-! ### Compiling -/

/-- The node of a renamed token is the renamed node. -/
theorem node_token (language : String) (t : PatternToken) :
    (ρ.token t).node language = ρ.node <$> t.node language := by
  obtain ⟨term, mark⟩ := t
  cases term <;> rfl

end Renaming

/-- Labels other than names are captured with their sign in front. -/
theorem Term.head?_capture? {t : Term} (h : ∀ name, t ≠ .variable name) :
    ∀ label ∈ t.capture?, label.toList.head? = some '#' := by
  cases t with
  | «variable» name => exact absurd rfl (h name)
  | literal => simp [Term.capture?]
  | tagged | synonym => simp [Term.capture?]

namespace PatternToken

theorem priority_ne_consume {t : PatternToken} (h : ∀ name, t.term ≠ .variable name) :
    t.priority ≠ .consume := by
  unfold priority
  split
  · next name hname => exact absurd hname (h name)
  all_goals exact Priority.noConfusion

/-- Preparing a token gives a node of a variable with a name, or of something else. -/
theorem proper_node {σ : Type} (answer : Query → σ → SynsetSet × σ) (s : σ) (language : String)
    {t : PatternToken} (h : ∀ name, t.term = .variable name → IsName name) :
    ((t.node language).runWith answer s).1.Proper := by
  obtain ⟨term, mark⟩ := t
  cases term with
  | «variable» name => exact .named (h name rfl)
  | literal | tagged | synonym =>
    exact .other Test.noConfusion (priority_ne_consume fun _ => Term.noConfusion)
      (Term.head?_capture? fun _ => Term.noConfusion)

end PatternToken

/-! ### Renamed graphs -/

theorem Inquiry.mapM_map {α α' β β' : Type} {f : α → Inquiry β} {f' : α' → Inquiry β'}
    {g : α → α'} {k : β → β'} (h : ∀ a, f' (g a) = k <$> f a) (as : List α) :
    (as.map g).mapM f' = List.map k <$> as.mapM f := by
  induction as with
  | nil => rfl
  | cons a as ih => simp only [List.map_cons, List.mapM_cons, h, ih, map_bind, bind_map_left, map_pure]

namespace Graph

/-- Whether every state of a graph has such a node. -/
def Proper (g : Graph) : Prop := ∀ id s, g.state? id = some s → s.node.Proper

theorem proper_layout {nodes : List Node} (h : ∀ n ∈ nodes, n.Proper) :
    ∀ n ∈ layout nodes, n.Proper := by
  intro n hn
  cases nodes with
  | nil => exact List.mem_singleton.mp hn ▸ Node.proper_skip
  | cons first rest =>
    simp only [layout, List.mem_cons, List.mem_flatMap, List.not_mem_nil, or_false] at hn
    rcases hn with rfl | rfl | ⟨m, hm, rfl | rfl | rfl⟩
    · exact Node.proper_skip
    · exact h _ List.mem_cons_self
    · exact h _ (List.mem_cons_of_mem _ hm)
    · exact Node.proper_skip
    · exact Node.proper_skip

theorem proper_ofNodes {items : List (Node × Mark)} (h : ∀ n ∈ items.map (·.1), n.Proper) :
    (ofNodes items).Proper := by
  intro id s hs
  rw [ofNodes, state?, Array.getElem?_mapIdx, Option.map_eq_some_iff] at hs
  obtain ⟨n, hn, rfl⟩ := hs
  exact proper_layout h n (List.mem_of_getElem? (by simpa using hn))

end Graph

namespace Renaming

variable (ρ : Renaming) {σ : Type} (answer : Query → σ → SynsetSet × σ) (s : σ)

/-- The graph of the renamed tokens is the graph of the tokens with its nodes renamed, and compiling
it asks the same. -/
theorem runWith_ofTokens (language : String) {tokens : List PatternToken}
    (h : ∀ t ∈ tokens, ∀ name, t.term = .variable name → IsName name) :
    let compiled := (Graph.ofTokens language tokens).runWith answer s
    (Graph.ofTokens language (tokens.map ρ.token)).runWith answer s =
        (compiled.1.mapNodes ρ.node, compiled.2) ∧
      compiled.1.Proper := by
  let made : Inquiry (List Node) := tokens.mapM (·.node language)
  have hnodes : ∀ n ∈ (made.runWith answer s).1, n.Proper := by
    intro n hn
    obtain ⟨i, hi⟩ := List.mem_iff_getElem?.mp hn
    obtain ⟨t, s', ht, rfl⟩ := Inquiry.exists_of_getElem?_mapM answer _ hi
    exact PatternToken.proper_node answer s' language (h t (List.mem_of_getElem? ht))
  have hmarks : (tokens.map ρ.token).map (·.mark) = tokens.map (·.mark) := by
    rw [List.map_map]
    rfl
  simp only [Graph.ofTokens, Inquiry.runWith_bind, Inquiry.runWith_pure,
    Inquiry.mapM_map (ρ.node_token language), Inquiry.runWith_map, hmarks]
  generalize (made.runWith answer s).1 = nodes at hnodes
  have hitems : ∀ n ∈ (nodes.zip (tokens.map (·.mark))).map (·.1), n.Proper := by
    intro n hn
    obtain ⟨p, hp, rfl⟩ := List.mem_map.mp hn
    exact hnodes _ (List.of_mem_zip hp).1
  refine ⟨Prod.ext ?_ rfl, Graph.proper_ofNodes hitems⟩
  rw [List.zip_map_left]
  exact Graph.ofNodes_map ρ.refits_node fun a ha b hb =>
    ρ.before_node (Graph.proper_layout hitems a ha) (Graph.proper_layout hitems b hb)

/-! ### Matching -/

/-- Whether a match is another one with what variables captured under their new names. -/
structure Renames (m m' : PatternMatch) : Prop where
  matchCount : m'.matchCount = m.matchCount
  window : m'.window = m.window
  captures : m'.captures.toList.Perm
    (m.captures.toList.map fun (key, value) => (ρ.key key, value))

variable {g : Graph}

theorem label?_mapNodes (hg : g.Proper) (id : Nat) :
    (g.mapNodes ρ.node).label? id = (g.label? id).map ρ.key ∧ ∀ key ∈ g.label? id, IsKey key := by
  rw [Graph.label?, Graph.state?_mapNodes, Graph.label?]
  cases hs : g.state? id with
  | none => exact ⟨rfl, fun _ h => absurd h (Option.not_mem_none _)⟩
  | some s => exact ρ.label_node (hg id s hs)

/-- What the same steps capture in the renamed graph. -/
theorem captured_mapNodes (hg : g.Proper) (text : Text) (steps : List Step) :
    ((g.mapNodes ρ.node).captured text steps).toList.Perm
      ((g.captured text steps).toList.map fun (key, value) => (ρ.key key, value)) := by
  have hlabels : (steps.map fun s => ((g.mapNodes ρ.node).label? s.state,
      ((text.token? s.index).map (·.text)).getD "")) =
        Capture.mapLabels ρ.key (steps.map fun s =>
          (g.label? s.state, ((text.token? s.index).map (·.text)).getD "")) := by
    rw [Capture.mapLabels, List.map_map]
    exact List.map_congr_left fun s _ => Prod.ext (ρ.label?_mapNodes hg s.state).1 rfl
  rw [Graph.captured, hlabels]
  refine Capture.bindings_mapLabels ρ.key_injective fun p hp => ?_
  obtain ⟨s, _, rfl⟩ := List.mem_map.mp hp
  exact (ρ.label?_mapNodes hg s.state).2

theorem outcome_mapNodes (hg : g.Proper) (text : Text) (steps : List Step) :
    ρ.Renames (g.outcome text steps) ((g.mapNodes ρ.node).outcome text steps) := by
  simp only [Graph.outcome, Graph.isFinal_mapNodes, Graph.isSkip_mapNodes ρ.refits_node]
  split
  · exact ⟨rfl, rfl, ρ.captured_mapNodes hg text steps⟩
  · exact ⟨rfl, rfl, .refl _⟩

/-- Matching in the renamed graph asks the same questions and gives the renamed match. -/
theorem runWith_matchAt_mapNodes (hg : g.Proper) (text : Text) (start stop : Nat) :
    let found := (g.matchAt text start stop).runWith answer s
    let found' := ((g.mapNodes ρ.node).matchAt text start stop).runWith answer s
    found'.2 = found.2 ∧ ρ.Renames found.1 found'.1 := by
  simp only [Graph.matchAt, Graph.walkAt, Graph.walk_mapNodes ρ.refits_node, Inquiry.runWith_map]
  exact ⟨trivial, ρ.outcome_mapNodes hg text _⟩

end Renaming

namespace Matcher

variable (ρ : Renaming) {σ τ : Type} (answer : Query → σ → SynsetSet × σ) (s : σ)
  (answer' : Query → τ → SynsetSet × τ) (s' : τ) (text : Text) (start stop : Nat)

/-- Two matchers with one lexicon, or without, and graphs that differ in the names of variables. -/
theorem runWith_matchAt_of_graph {m m' : Matcher} (hm : m.graph.Proper)
    (hgraph : m'.graph = m.graph.mapNodes ρ.node) (hlexicon : m'.lexicon = m.lexicon) :
    let found := (m.matchAt text start stop).runWith answer s
    let found' := (m'.matchAt text start stop).runWith answer s
    found'.2 = found.2 ∧ ρ.Renames found.1 found'.1 := by
  simp only [matchAt, hlexicon, hgraph]
  cases m.lexicon with
  | none => exact ρ.runWith_matchAt_mapNodes answer s hm text start stop
  | some own =>
    have hown := (ρ.runWith_matchAt_mapNodes (fun q (s : σ) => (own q, s)) s hm text start stop).2
    rw [Inquiry.runWith_lexicon, Inquiry.runWith_lexicon] at hown
    exact ⟨rfl, hown⟩

variable (id : String) (styles : Option String) (language : String)

/-- The matcher of a renamed pattern has the renamed graph, and compiling it asks the same. -/
theorem runWith_compile_renamed {pattern : String} (h : Named pattern) :
    let compiled := (compile id pattern styles language).runWith answer s
    let renamed := (compile id (ρ.pattern pattern) styles language).runWith answer s
    renamed.2 = compiled.2 ∧ compiled.1.graph.Proper ∧
      renamed.1.graph = compiled.1.graph.mapNodes ρ.node ∧
      renamed.1.lexicon = compiled.1.lexicon := by
  obtain ⟨hrun, hproper⟩ := ρ.runWith_ofTokens answer s language h
  simp only [compile, Graph.compile, ρ.tokensOf_pattern h, Inquiry.runWith_map, hrun, graph_ofGraph]
  exact ⟨trivial, hproper, trivial, trivial⟩

theorem standalone_renamed (digits : String → String) {pattern : String} (h : Named pattern) :
    (standalone digits id pattern styles).graph.Proper ∧
      (standalone digits id (ρ.pattern pattern) styles).graph =
        (standalone digits id pattern styles).graph.mapNodes ρ.node := by
  let identity (q : Query) (s : Unit) : SynsetSet × Unit := ((Dictionary.identity digits).lexicon q, s)
  have hgraph : ∀ p : String, (standalone digits id p styles).graph =
      ((compile id p styles Graph.defaultLanguage).runWith identity ()).1.graph := by
    intro p
    rw [Inquiry.runWith_lexicon, standalone]
  obtain ⟨_, hproper, hmap, _⟩ :=
    runWith_compile_renamed ρ identity () id styles Graph.defaultLanguage h
  rw [hgraph, hgraph]
  exact ⟨hproper, hmap⟩

/-- Renaming the variables of a pattern in their order renames what a match captures and changes
nothing else, in any text and range, whoever answers the questions while compiling and while matching:
the same questions are asked, as many tokens are matched and taken, variables have what they had under
their new names, and labels have what they had. This holds of the pattern's own matcher too, the one
that looks words up in the identity dictionary. -/
theorem matchAt_renamed (digits : String → String) {pattern : String} (h : Named pattern) :
    let compiled := (compile id pattern styles language).runWith answer s
    let renamed := (compile id (ρ.pattern pattern) styles language).runWith answer s
    let found (m : Matcher) := (m.matchAt text start stop).runWith answer' s'
    let own := found (standalone digits id pattern styles)
    let own' := found (standalone digits id (ρ.pattern pattern) styles)
    (renamed.2 = compiled.2 ∧ (found renamed.1).2 = (found compiled.1).2 ∧
        ρ.Renames (found compiled.1).1 (found renamed.1).1) ∧
      own'.2 = own.2 ∧ ρ.Renames own.1 own'.1 := by
  obtain ⟨hstate, hproper, hgraph, hlexicon⟩ :=
    runWith_compile_renamed ρ answer s id styles language h
  obtain ⟨hownproper, howngraph⟩ := standalone_renamed ρ id styles digits h
  exact ⟨⟨hstate, runWith_matchAt_of_graph ρ answer' s' text start stop hproper hgraph hlexicon⟩,
    runWith_matchAt_of_graph ρ answer' s' text start stop hownproper howngraph rfl⟩

end Matcher

/-- The renaming that puts a letter in front of each name. -/
def Renaming.ofLetter (c : Char) (hc : IsName (String.singleton c)) : Renaming where
  apply name := String.singleton c ++ name
  isName {x} hx := by
    have htext : (String.singleton c ++ x).toList = c :: x.toList := by simp
    have hletter : (String.singleton c).toList = [c] := by simp
    refine ⟨Term.blankless_append.mpr ⟨hc.blankless, hx.blankless⟩, ?_, ?_⟩
    · have hunlabelled := hc.unlabelled
      rw [hletter] at hunlabelled
      rwa [htext]
    · rw [htext]
      cases hname : x.toList with
      | nil => exact hletter ▸ hc.unmarked
      | cons d ds =>
        rw [Mark.Ends, List.getLast?_cons_cons]
        exact hname ▸ hx.unmarked
  lt {x y} _ _ h := by
    have htext (name : String) : (String.singleton c ++ name).toList = c :: name.toList := by simp
    rw [String.lt_iff_toList_lt, htext, htext, List.cons_lt_cons_iff]
    exact .inr ⟨rfl, String.lt_iff_toList_lt.mp h⟩

namespace Matcher

/-- Two variables, one of them repeated and the other one written twice, and a label. -/
theorem matchAt_renamed_lettered :
    let ρ := Renaming.ofLetter 'v' (by decide)
    let text := (Text.ofWords ["one", "two", "three", "four"]).setLayer .pos
      (Layer.ofList [Tagging.ofCode 1 7])
    let digits (word : String) := word
    let found (pattern : String) :=
      ((standalone digits "1" pattern none).matchAt text 0 4).run Dictionary.empty.lexicon
    Named "$b <JJ#tag> $a* $b" ∧ ρ.pattern "$b <JJ#tag> $a* $b" = "$vb <JJ#tag> $va* $vb" ∧
      ρ.Renames (found "$b <JJ#tag> $a* $b") (found "$vb <JJ#tag> $va* $vb") ∧
      (found "$vb <JJ#tag> $va* $vb").window = 3 ∧
      (found "$vb <JJ#tag> $va* $vb").captures["vb"]? = some "one three" := by
  intro ρ text digits found
  have htokens : tokensOf "$b <JJ#tag> $a* $b" = [⟨.variable "b", .once⟩,
      ⟨.tagged "JJ" (some "tag"), .once⟩, ⟨.variable "a", .repeated⟩, ⟨.variable "b", .once⟩] := by
    decide +kernel
  have hnamed : Named "$b <JJ#tag> $a* $b" := by
    have ha : IsName "a" := by decide
    have hb : IsName "b" := by decide
    simp [Named, htokens, ha, hb]
  have hpattern : ρ.pattern "$b <JJ#tag> $a* $b" = "$vb <JJ#tag> $va* $vb" := by decide +kernel
  let answer (q : Query) (s : Unit) : SynsetSet × Unit := (Dictionary.empty.lexicon q, s)
  have hrenames := (matchAt_renamed ρ answer () answer () text 0 4 "1" none Graph.defaultLanguage
    digits hnamed).2.2
  rw [hpattern] at hrenames
  simp only [answer, Inquiry.runWith_lexicon] at hrenames
  exact ⟨hnamed, hpattern, hrenames, by decide +kernel, by decide +kernel⟩

/-- The order of the names matters: exchanged, the repeated variable is tried first. -/
example :
    let text := (Text.ofWords ["one", "two", "three", "four"]).setLayer .pos
      (Layer.ofList [Tagging.ofCode 1 7])
    ((standalone (fun word => word) "1" "$a <JJ#tag> $b* $a" none).matchAt text 0 4).run
      Dictionary.empty.lexicon = .none := by
  decide +kernel

end Matcher
end TokenPatterns
