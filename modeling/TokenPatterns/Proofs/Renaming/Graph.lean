import TokenPatterns.Pattern.Walk

/-! Graphs with other nodes in the same places.

Where a walk goes depends on the tests of the nodes, and on their priorities and texts as far as they
decide which successor is tried first. So if every node is replaced by one with the same test and the
same priority, and the order of the nodes stays, then the graph has the same links, the same ends
(`Graph.ofNodes_map`) and the same walks (`Graph.walk_mapNodes`). -/
namespace TokenPatterns

namespace Node

/-- Whether replacing each node keeps its test and its priority, and leaves skips alone. -/
structure Refits (f : Node → Node) : Prop where
  test : ∀ n, (f n).test = n.test
  priority : ∀ n, (f n).priority = n.priority
  skip : f .skip = .skip

theorem Refits.isSkip {f : Node → Node} (hf : Refits f) (n : Node) : (f n).isSkip = n.isSkip := by
  rw [Node.isSkip, hf.priority, Node.isSkip]

variable {node node' : Nat → Node} (h : ∀ i j, (node' i).before (node' j) = (node i).before (node j))
include h

/-- Numbers are sorted by the order of their nodes alone. -/
theorem sortIds_congr (ids : List Nat) : sortIds node' ids = sortIds node ids := by
  simp only [sortIds, h]

end Node

namespace Graph

/-- A graph with each node replaced. -/
def mapNodes (f : Node → Node) (g : Graph) : Graph :=
  ⟨g.states.map fun s => {s with node := f s.node}⟩

section Places

variable (f : Node → Node) (g : Graph) (id : Nat)

theorem state?_mapNodes :
    (g.mapNodes f).state? id = (g.state? id).map fun s => {s with node := f s.node} :=
  Array.getElem?_map

theorem next_mapNodes : (g.mapNodes f).next id = g.next id := by
  rw [next, state?_mapNodes, Option.map_map, next]
  rfl

theorem isFinal_mapNodes : (g.mapNodes f).isFinal id = g.isFinal id := by
  rw [isFinal, state?_mapNodes, Option.any_map]
  rfl

end Places

theorem skip_mem_layout (nodes : List Node) : Node.skip ∈ layout nodes := by
  cases nodes <;> exact List.mem_cons_self

variable {f : Node → Node} (hf : Node.Refits f)
include hf

theorem isSkip_mapNodes (g : Graph) (id : Nat) : (g.mapNodes f).isSkip id = g.isSkip id := by
  rw [isSkip, state?_mapNodes, Option.any_map, isSkip]
  congr 1
  funext s
  exact hf.isSkip s.node

/-! ### Compiling -/

theorem layout_map (nodes : List Node) : layout (nodes.map f) = (layout nodes).map f := by
  cases nodes with
  | nil => simp [layout, hf.skip]
  | cons first rest => simp [layout, hf.skip, List.flatMap_map, List.map_flatMap]

theorem finals_map (nodes : Array Node) (links : List Link) (lastMandatory : Nat) :
    finals (nodes.map f) links lastMandatory = finals nodes links lastMandatory := by
  have hallowed : ∀ id : Nat, (nodes.map f)[id]?.any (fun n => !n.isSkip) =
      nodes[id]?.any fun n => !n.isSkip := by
    intro id
    rw [Array.getElem?_map, Option.any_map]
    congr 1
    funext n
    exact congrArg Bool.not (hf.isSkip n)
  simp only [finals, Array.size_map, hallowed]

/-- The graph of replaced nodes is the graph with its nodes replaced, if their order is the same. -/
theorem ofNodes_map {items : List (Node × Mark)}
    (hbefore : ∀ a ∈ layout (items.map (·.1)), ∀ b ∈ layout (items.map (·.1)),
      (f a).before (f b) = a.before b) :
    ofNodes (items.map fun p => (f p.1, p.2)) = (ofNodes items).mapNodes f := by
  have hmarks : (items.map fun p => (f p.1, p.2)).map (·.2) = items.map (·.2) := by
    rw [List.map_map]
    rfl
  have hnodes : (layout ((items.map fun p => (f p.1, p.2)).map (·.1))).toArray =
      (layout (items.map (·.1))).toArray.map f := by
    rw [List.map_map, List.map_toArray, ← layout_map hf, List.map_map]
    rfl
  have hnode : ∀ id : Nat, ((layout (items.map (·.1))).toArray.map f)[id]?.getD .skip =
      f ((layout (items.map (·.1))).toArray[id]?.getD .skip) := by
    intro id
    rw [Array.getElem?_map]
    cases (layout (items.map (·.1))).toArray[id]? with
    | none => exact hf.skip.symm
    | some n => rfl
  have hmem : ∀ id : Nat,
      (layout (items.map (·.1))).toArray[id]?.getD .skip ∈ layout (items.map (·.1)) := by
    intro id
    cases hid : (layout (items.map (·.1))).toArray[id]? with
    | none => exact skip_mem_layout _
    | some n => exact List.mem_of_getElem? (by simpa using hid)
  have hsort : ∀ ids : List Nat,
      Node.sortIds (fun id => ((layout (items.map (·.1))).toArray.map f)[id]?.getD .skip) ids =
        Node.sortIds (fun id => (layout (items.map (·.1))).toArray[id]?.getD .skip) ids :=
    Node.sortIds_congr fun i j => by
      rw [hnode, hnode, hbefore _ (hmem i) _ (hmem j)]
  simp only [ofNodes, mapNodes, hmarks, hnodes, finals_map hf, Array.size_map, hsort]
  congr 1
  apply Array.ext_getElem?
  intro id
  simp only [Array.getElem?_mapIdx, Array.getElem?_map, Option.map_map]
  rfl

/-! ### Walking -/

variable (g : Graph) (text : Text)

theorem accepts_mapNodes (id index : Nat) :
    (g.mapNodes f).accepts text id index = g.accepts text id index := by
  rw [accepts, accepts, state?_mapNodes]
  cases g.state? id with
  | none => rfl
  | some s => exact congrArg (Test.accepts text index) (hf.test s.node)

theorem choose_mapNodes (index : Nat) (ids : List Nat) :
    (g.mapNodes f).choose text index ids = g.choose text index ids := by
  induction ids with
  | nil => rfl
  | cons id ids ih => rw [choose, choose, accepts_mapNodes hf, ih]

/-- The same questions lead to the same steps. -/
theorem walk_mapNodes (state index remaining : Nat) :
    (g.mapNodes f).walk text state index remaining = g.walk text state index remaining := by
  induction remaining generalizing state index with
  | zero => rfl
  | succ remaining ih =>
    rw [walk, walk, next_mapNodes, choose_mapNodes hf]
    simp only [ih]

end Graph
end TokenPatterns
