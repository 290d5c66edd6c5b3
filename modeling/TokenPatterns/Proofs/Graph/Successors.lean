import TokenPatterns.Proofs.Graph.Order

/-! The successors of every state.

From the state behind a token a walk tries the tokens that a match tries there, in the same order,
and the first skip after all of them; from a skip it tries the next token and then the second
skip. -/
namespace TokenPatterns.Greedy

/-- The targets of a token are laid in ascending order. -/
theorem laid_pairwise (marks : List Mark) (k : Nat) : (laid marks ⟨k, 0⟩).Pairwise (· < ·) := by
  rw [laid, List.pairwise_flatMap]
  constructor
  · intro j _
    split
    · rename_i h
      simp only [List.pairwise_cons, List.mem_singleton, forall_eq, List.not_mem_nil,
        false_imp_iff, implies_true, List.Pairwise.nil, and_true, tokenId]
      omega
    · exact List.pairwise_singleton _ _
  · refine (candidates_pairwise marks k).imp fun {i j} hij x hx y hy => ?_
    have hx : x = tokenId i ∨ i = k + 1 ∧ 1 ≤ k ∧ x = 3 * k := by
      split at hx <;> simp_all
    have hy : y = tokenId j ∨ j = k + 1 ∧ 1 ≤ k ∧ y = 3 * k := by
      split at hy <;> simp_all
    unfold tokenId at *
    omega

/-- The targets of a token are the tokens to which a match may go on, and the first skip. -/
theorem laid_perm (marks : List Mark) (k : Nat) :
    (laid marks ⟨k, 0⟩).Perm ((candidates marks ⟨k, 0⟩).map tokenId ++
      if 1 ≤ k ∧ k < marks.length then [3 * k] else []) := by
  have hskip : ∀ j, 1 ≤ k → tokenId j ≠ 3 * k := by
    unfold tokenId
    omega
  have hnodup : ((candidates marks ⟨k, 0⟩).map tokenId ++
      if 1 ≤ k ∧ k < marks.length then [3 * k] else []).Nodup := by
    refine List.nodup_append.mpr ⟨?_, ?_, ?_⟩
    · exact List.Nodup.map (fun _ _ => tokenId_inj.mp) ((candidates_pairwise marks k).imp Nat.ne_of_lt)
    · split <;> simp
    · split <;> simp_all
  refine (List.perm_ext_iff_of_nodup ((laid_pairwise marks k).imp Nat.ne_of_lt) hnodup).mpr
    fun x => ?_
  have hnext : k < marks.length → k + 1 ∈ candidates marks ⟨k, 0⟩ := fun h =>
    mem_candidates.mpr ⟨h, .inr (.inl rfl)⟩
  simp only [laid, List.mem_flatMap, List.mem_append, List.mem_map]
  constructor
  · intro hmem
    obtain ⟨j, hj, hx⟩ := hmem
    split at hx
    · rename_i h
      rw [if_pos ⟨h.2, by have := (mem_candidates.mp hj).1; omega⟩]
      rcases List.mem_cons.mp hx with hx | hx
      · exact .inl ⟨j, hj, hx.symm⟩
      · exact .inr hx
    · exact .inl ⟨j, hj, (List.mem_singleton.mp hx).symm⟩
  · intro hmem
    rcases hmem with ⟨j, hj, rfl⟩ | hx
    · refine ⟨j, hj, ?_⟩
      split <;> exact List.mem_cons_self ..
    · split at hx
      · rename_i h
        exact ⟨k + 1, hnext h.2, by rw [if_pos ⟨rfl, h.1⟩]; exact List.mem_cons_of_mem _ hx⟩
      · exact absurd hx List.not_mem_nil

/-! ### Sorted successors -/

/-- The node with a number. -/
def stateNode (nodes : List Node) (id : Nat) : Node :=
  (Graph.layout nodes).toArray[id]?.getD .skip

theorem stateNode_place {nodes : List Node} {p : Place} (hp : p.Within nodes.length) :
    stateNode nodes p.id = p.node nodes := by
  simp [stateNode, layout_place hp]

/-- Only skips have the priority of skips. -/
def NoSkips (nodes : List Node) : Prop := ∀ node ∈ nodes, node.priority ≠ .skip

theorem NoSkips.nodeAt {nodes : List Node} (h : NoSkips nodes) {k : Nat} (hk : 1 ≤ k)
    (hn : k ≤ nodes.length) : (nodeAt nodes k).priority ≠ .skip := by
  match k with
  | k + 1 =>
    simp only [Greedy.nodeAt, List.getElem?_eq_getElem hn, Option.getD_some]
    exact h _ (List.getElem_mem hn)

variable {items : List (Node × Mark)}

/-- Behind a token, the tokens come in the order in which they are tried, and the skip last. -/
theorem sortIds_laid_token (hitems : NoSkips (items.map (·.1))) {k : Nat} (hk : k ≤ items.length) :
    Node.sortIds (stateNode (items.map (·.1))) (laid (items.map (·.2)) ⟨k, 0⟩) =
      (tried items ⟨k, 0⟩).map tokenId ++ if 1 ≤ k ∧ k < items.length then [3 * k] else [] := by
  have htoken : ∀ j ≤ items.length,
      stateNode (items.map (·.1)) (tokenId j) = nodeAt (items.map (·.1)) j := fun j hj =>
    stateNode_place (p := ⟨j, 0⟩) ⟨by simpa using hj, .inl rfl⟩
  have hle : ∀ j ∈ tried items ⟨k, 0⟩, 1 ≤ j ∧ j ≤ items.length := fun j hj => by
    obtain ⟨hj, hf⟩ := mem_candidates.mp (mem_tried.mp hj)
    exact ⟨hf.le.2, by simpa using hj⟩
  have hmap : ((tried items ⟨k, 0⟩).map tokenId).Pairwise
      (Node.Sorted (stateNode (items.map (·.1))) (· ≤ ·)) := by
    rw [List.pairwise_map]
    refine (List.pairwise_insertionSort (Ahead (items.map (·.1))) _).imp_of_mem
      fun {i j} hi hj hij => ?_
    rw [ahead_iff] at hij
    rw [Node.Sorted, htoken i (hle i hi).2, htoken j (hle j hj).2]
    rcases hij with hij | ⟨hij, hle⟩
    · exact .inl hij
    · exact .inr ⟨hij, tokenId_mono hle⟩
  have hsorted : ((tried items ⟨k, 0⟩).map tokenId ++
      if 1 ≤ k ∧ k < items.length then [3 * k] else []).Pairwise
      (Node.Sorted (stateNode (items.map (·.1))) (· ≤ ·)) := by
    refine List.pairwise_append.mpr ⟨hmap, by split <;> simp, fun a ha b hb => ?_⟩
    split at hb
    · rename_i hskip
      obtain ⟨j, hj, rfl⟩ := List.mem_map.mp ha
      obtain rfl := List.mem_singleton.mp hb
      have hnode : stateNode (items.map (·.1)) (3 * k) = .skip :=
        stateNode_place (p := ⟨k, 1⟩) ⟨by simpa using hk, .inr (by simpa using hskip)⟩
      rw [Node.Sorted, htoken j (hle j hj).2, hnode]
      exact .inl (Node.before_iff.mp
        (Node.before_skip (hitems.nodeAt (hle j hj).1 (by simpa using (hle j hj).2))))
    · exact absurd hb List.not_mem_nil
  have hperm : (Node.sortIds (stateNode (items.map (·.1))) (laid (items.map (·.2)) ⟨k, 0⟩)).Perm
      ((tried items ⟨k, 0⟩).map tokenId ++ if 1 ≤ k ∧ k < items.length then [3 * k] else []) := by
    refine (Node.perm_sortIds _).trans ((laid_perm _ k).trans ?_)
    rw [List.length_map]
    exact ((List.perm_insertionSort _ _).symm.map tokenId).append_right _
  exact List.Perm.eq_of_pairwise (fun a b _ _ => Node.Sorted.antisymm)
    (Node.pairwise_sortIds ((laid_pairwise _ k).imp Nat.le_of_lt)) hsorted hperm

/-- From a skip the next token comes first. -/
theorem sortIds_laid_skip (hitems : NoSkips (items.map (·.1))) {k : Nat} (hk : 1 ≤ k)
    (hn : k < items.length) :
    Node.sortIds (stateNode (items.map (·.1))) (laid (items.map (·.2)) ⟨k, 1⟩) =
        [tokenId (k + 1), 3 * k + 1] ∧
      Node.sortIds (stateNode (items.map (·.1))) (laid (items.map (·.2)) ⟨k, 2⟩) =
        [tokenId (k + 1)] := by
  have hin : 1 ≤ k ∧ k < (items.map (·.2)).length := ⟨hk, by simpa using hn⟩
  have htoken : stateNode (items.map (·.1)) (tokenId (k + 1)) = nodeAt (items.map (·.1)) (k + 1) :=
    stateNode_place (p := ⟨k + 1, 0⟩) ⟨by rw [List.length_map]; exact hn, .inl rfl⟩
  have hskip : stateNode (items.map (·.1)) (3 * k + 1) = .skip :=
    stateNode_place (p := ⟨k, 2⟩)
      ⟨by simpa using Nat.le_of_lt hn, .inr ⟨hk, by simpa using hn, Nat.le_refl 2⟩⟩
  have hbefore := Node.before_skip
    (hitems.nodeAt (Nat.le_add_left 1 k) (by rw [List.length_map]; exact hn))
  simp only [laid, if_pos hin]
  simp [Node.sortIds, htoken, hskip, hbefore]

/-- The successors of a place: the tokens that a match tries there, and behind them the skip. -/
theorem sortIds_laid (hitems : NoSkips (items.map (·.1))) {p : Place} (hp : p.Within items.length) :
    Node.sortIds (stateNode (items.map (·.1))) (laid (items.map (·.2)) p) =
      (tried items p).map tokenId ++
        if 1 ≤ p.token ∧ p.token < items.length ∧ p.passed < 2 then
          [(⟨p.token, p.passed + 1⟩ : Place).id] else [] := by
  obtain ⟨hk, hp⟩ := hp
  rcases p with ⟨k, _ | _ | _ | h⟩
  · simpa [Place.id] using sortIds_laid_token hitems hk
  · have hp : 1 ≤ k ∧ k < items.length := by simpa using hp
    rw [(sortIds_laid_skip hitems hp.1 hp.2).1]
    simp [tried, candidates, hp, Place.id]
  · have hp : 1 ≤ k ∧ k < items.length := by simpa using hp
    rw [(sortIds_laid_skip hitems hp.1 hp.2).2]
    simp [tried, candidates, hp]
  · simp at hp

/-! ### The states of a graph -/

/-- The states at which a match of some tokens may end. -/
def finalStates (items : List (Node × Mark)) : Array Bool :=
  Graph.finals (Graph.layout (items.map (·.1))).toArray
    (Frontier.start.allLinks (items.map (·.2)))
    (Frontier.start.advanceAll (items.map (·.2))).lastMandatory

/-- The state of a place. -/
theorem state?_place {p : Place} (hp : p.Within items.length) :
    (Graph.ofNodes items).state? p.id =
      some ⟨p.node (items.map (·.1)), (finalStates items)[p.id]?.getD false,
        Node.sortIds (stateNode (items.map (·.1))) (laid (items.map (·.2)) p)⟩ := by
  have hp' : p.Within (items.map (·.1)).length := by simpa using hp
  have hlt : p.id < (Graph.layout (items.map (·.1))).toArray.size := by
    simpa [length_layout] using hp.id_lt
  have htargets : (Link.targets (Graph.layout (items.map (·.1))).toArray.size
      (Frontier.start.allLinks (items.map (·.2))))[p.id]?.getD [] = laid (items.map (·.2)) p := by
    rw [Link.targets_getElem?_eq hlt, Option.getD_some]
    exact targets_eq_laid _ p (hp.2.imp_right fun h => ⟨h.1, h.2.2⟩)
  have hnode : (Graph.layout (items.map (·.1))).toArray[p.id]? = some (p.node (items.map (·.1))) := by
    simpa using layout_place hp'
  rw [Graph.state?, Graph.ofNodes, Array.getElem?_mapIdx, hnode, Option.map_some, htargets]
  rfl

theorem next_place (hitems : NoSkips (items.map (·.1))) {p : Place} (hp : p.Within items.length) :
    (Graph.ofNodes items).next p.id =
      (tried items p).map tokenId ++
        if 1 ≤ p.token ∧ p.token < items.length ∧ p.passed < 2 then
          [(⟨p.token, p.passed + 1⟩ : Place).id] else [] := by
  rw [Graph.next, state?_place hp, Option.map_some, Option.getD_some, sortIds_laid hitems hp]

end TokenPatterns.Greedy
