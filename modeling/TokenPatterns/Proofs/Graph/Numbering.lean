import TokenPatterns.Proofs.Greedy.Moves

/-! The numbers of the states of a graph.

Every state of the graph of a pattern is a place of a match: the root and the node of each token
stand for the places right behind a token, and the two skips between a token and the next one for
the places at which one or two tokens of the text have been passed over. -/
namespace TokenPatterns.Greedy

/-- The number of the node of a token. -/
def tokenId (k : Nat) : Nat := max k (3 * k - 4)

theorem tokenId_lt_tokenId {i j : Nat} (h : i < j) : tokenId i < tokenId j := by
  unfold tokenId
  omega

theorem tokenId_mono {i j : Nat} (h : i ≤ j) : tokenId i ≤ tokenId j := by
  unfold tokenId
  omega

@[simp] theorem tokenId_inj {i j : Nat} : tokenId i = tokenId j ↔ i = j := by
  unfold tokenId
  omega

@[simp] theorem tokenId_eq_zero {k : Nat} : tokenId k = 0 ↔ k = 0 := by
  unfold tokenId
  omega

/-- The number of the state of a place. -/
def Place.id : Place → Nat
  | ⟨k, 0⟩ => tokenId k
  | ⟨k, h + 1⟩ => 3 * k + h

theorem Place.Within.id_lt {n : Nat} {p : Place} (h : p.Within n) : p.id < tokenId (n + 1) := by
  obtain ⟨hk, hp⟩ := h
  rcases p with ⟨k, _ | h⟩
  · exact tokenId_lt_tokenId (Nat.lt_succ_of_le hk)
  · simp only [Place.id, tokenId] at *
    omega

/-- Different places have different states. -/
theorem Place.id_injective {n : Nat} {p q : Place} (hp : p.Within n) (hq : q.Within n)
    (h : p.id = q.id) : p = q := by
  obtain ⟨_, hp⟩ := hp
  obtain ⟨_, hq⟩ := hq
  rcases p with ⟨k, _ | g⟩ <;> rcases q with ⟨l, _ | g'⟩
  · rw [tokenId_inj.mp h]
  all_goals
    simp only [Place.id, tokenId, Place.mk.injEq] at *
    omega

/-- The node of a place: between two tokens there are nodes that pass over a token. -/
def Place.node (nodes : List Node) (p : Place) : Node :=
  if p.passed = 0 then nodeAt nodes p.token else .skip

/-! ### The layout of the nodes -/

/-- Behind the node of the first token, each token has its own node and two that pass over a
token. -/
theorem getElem?_triples (nodes : List Node) (i : Nat) :
    let triples := nodes.flatMap fun node => [node, .skip, .skip]
    triples[3 * i]? = nodes[i]? ∧
      triples[3 * i + 1]? = nodes[i]?.map (fun _ => .skip) ∧
      triples[3 * i + 2]? = nodes[i]?.map (fun _ => .skip) := by
  intro triples
  induction nodes generalizing i with
  | nil => simp [triples]
  | cons node nodes ih =>
    cases i with
    | zero => simp [triples]
    | succ i => simpa [triples, Nat.mul_succ] using ih i

theorem length_layout (nodes : List Node) :
    (Graph.layout nodes).length = tokenId (nodes.length + 1) := by
  cases nodes with
  | nil => rfl
  | cons node nodes =>
    simp [Graph.layout, tokenId]
    omega

theorem layout_token {nodes : List Node} {k : Nat} (h : k ≤ nodes.length) :
    (Graph.layout nodes)[tokenId k]? = some (nodeAt nodes k) := by
  match nodes, k with
  | [], 0 => rfl
  | _ :: _, 0 => rfl
  | _ :: _, 1 => rfl
  | node :: nodes, k + 2 =>
    have hid : tokenId (k + 2) = 3 * k + 2 := by
      unfold tokenId
      omega
    have hk : k < nodes.length := by
      rw [List.length_cons] at h
      omega
    have htriple := (getElem?_triples nodes k).1
    rw [hid, Graph.layout, List.getElem?_cons_succ, List.getElem?_cons_succ]
    simpa [nodeAt, hk] using htriple

theorem layout_skip {nodes : List Node} {k h : Nat} (hk : 1 ≤ k) (hn : k < nodes.length)
    (hh : h < 2) : (Graph.layout nodes)[3 * k + h]? = some .skip := by
  match nodes, k with
  | node :: nodes, k + 1 =>
    have hk : k < nodes.length := by simpa using hn
    obtain ⟨_, hone, htwo⟩ := getElem?_triples nodes k
    have hid : 3 * (k + 1) + h = 3 * k + 1 + h + 2 := by omega
    rw [hid, Graph.layout, List.getElem?_cons_succ, List.getElem?_cons_succ]
    rcases (by omega : h = 0 ∨ h = 1) with rfl | rfl
    · simpa [hk] using hone
    · simpa [hk] using htwo

/-- The state of a place has the node of the place. -/
theorem layout_place {nodes : List Node} {p : Place} (h : p.Within nodes.length) :
    (Graph.layout nodes)[p.id]? = some (p.node nodes) := by
  obtain ⟨hk, hp⟩ := h
  rcases p with ⟨k, _ | h⟩
  · exact layout_token hk
  · have hp : 1 ≤ k ∧ k < nodes.length ∧ h + 1 ≤ 2 := by simpa using hp
    exact layout_skip hp.1 hp.2.1 (by omega)

end TokenPatterns.Greedy
