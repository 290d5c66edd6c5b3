import TokenPatterns.Proofs.Registry.Endings

/-! The shape of the graph of a pattern.

The states of a graph are the places of its pattern: the root, a state for each token, and between two
tokens two skips. Its links are of few kinds, and the marks of the tokens decide which there are
(`Linked`). The successors of a state are the targets of its links, sorted by their nodes
(`next_eq_sortIds`), and no link leads back to an earlier token. `compile_shape` says what this makes of
a pattern that is compiled. -/
namespace TokenPatterns

namespace Greedy

variable {marks : List Mark} {items : List (Node × Mark)}

/-! ### The links between places -/

/-- The links between the places of a pattern. The root is token 0; a link past a token that may be left
out comes from the last mandatory token before it, or from the root if there is none. -/
inductive Linked (marks : List Mark) : Place → Place → Prop
  | next {k : Nat} : k < marks.length → Linked marks ⟨k, 0⟩ ⟨k + 1, 0⟩
  | firstSkip {k : Nat} : 1 ≤ k → k < marks.length → Linked marks ⟨k, 0⟩ ⟨k, 1⟩
  | secondSkip {k : Nat} : 1 ≤ k → k < marks.length → Linked marks ⟨k, 1⟩ ⟨k, 2⟩
  | resume {k h : Nat} : 1 ≤ k → k < marks.length → h = 1 ∨ h = 2 → Linked marks ⟨k, h⟩ ⟨k + 1, 0⟩
  | again {k : Nat} : marks[k]? = some .repeated → Linked marks ⟨k + 1, 0⟩ ⟨k + 1, 0⟩
  | past {i m : Nat} : i + 1 < marks.length → marks[i]? ≠ some .once →
      LastMandatory (marks.take i) m → Linked marks ⟨m, 0⟩ ⟨i + 2, 0⟩

theorem Linked.within {p q : Place} (h : Linked marks p q) :
    p.Within marks.length ∧ q.Within marks.length := by
  unfold Place.Within
  cases h with
  | again hk =>
    have hlt := (List.getElem?_eq_some_iff.mp hk).1
    exact ⟨⟨hlt, .inl rfl⟩, hlt, .inl rfl⟩
  | past hi _ hm =>
    exact ⟨⟨Nat.le_trans hm.le (List.length_take_le' ..), .inl rfl⟩, hi, .inl rfl⟩
  | _ => constructor <;> dsimp only <;> omega

/-- No link leads to an earlier token. -/
theorem Linked.token_le {p q : Place} (h : Linked marks p q) : p.token ≤ q.token := by
  cases h with
  | past _ _ hm =>
    have hle := Nat.le_trans hm.le (List.length_take_le ..)
    exact Nat.le_add_right_of_le hle
  | _ => dsimp only; omega

theorem markAt_take {i k : Nat} (hk : k ≤ i) (hi : i ≤ marks.length) :
    markAt (marks.take i) k = markAt marks k := by
  have happend : markAt (marks.take i ++ marks.drop i) k = markAt (marks.take i) k :=
    markAt_append_of_le (by rw [List.length_take_of_le hi]; exact hk)
  rw [← happend, List.take_append_drop]

theorem markAt_add_one {i : Nat} (hi : i < marks.length) :
    marks[i]? = some (markAt marks (i + 1)) := by
  rw [markAt, List.getElem?_eq_getElem hi, Option.getD_some]

/-- A run of tokens that may be left out begins behind the last mandatory token before its end. -/
theorem lastMandatory_take_iff {i m : Nat} (hi : i ≤ marks.length) :
    LastMandatory (marks.take i) m ↔
      m ≤ i ∧ markAt marks m = .once ∧ ∀ l ≤ i, m < l → markAt marks l ≠ .once := by
  have hlength : (marks.take i).length = i := List.length_take_of_le hi
  constructor
  · intro h
    have hle : m ≤ i := hlength ▸ h.le
    exact ⟨hle, by rw [← markAt_take hle hi, h.mark], fun l hl hlt => by
      rw [← markAt_take hl hi]
      exact h.after l (hlength.symm ▸ hl) hlt⟩
  · rintro ⟨hle, hmark, hafter⟩
    refine ⟨hlength.symm ▸ hle, by rw [markAt_take hle hi, hmark], fun l hl hlt => ?_⟩
    rw [hlength] at hl
    rw [markAt_take hl hi]
    exact hafter l hl hlt

/-- From a token links lead to the tokens to which a match may go on, and to the first skip. -/
theorem linked_token_iff {k : Nat} {q : Place} :
    Linked marks ⟨k, 0⟩ q ↔ (∃ j ∈ candidates marks ⟨k, 0⟩, q = ⟨j, 0⟩) ∨
      (1 ≤ k ∧ k < marks.length) ∧ q = ⟨k, 1⟩ := by
  simp only [mem_candidates]
  constructor
  · intro h
    cases h with
    | next hk => exact .inl ⟨k + 1, ⟨hk, .inr (.inl rfl)⟩, rfl⟩
    | firstSkip hpos hk => exact .inr ⟨⟨hpos, hk⟩, rfl⟩
    | resume _ _ hh => omega
    | @again k hrepeated =>
      have hk := (List.getElem?_eq_some_iff.mp hrepeated).1
      have hmark : markAt marks (k + 1) = .repeated :=
        Option.some.inj ((markAt_add_one hk).symm.trans hrepeated)
      exact .inl ⟨k + 1, ⟨hk, .inl ⟨Nat.succ_pos k, hmark, rfl⟩⟩, rfl⟩
    | @past i _ hi hoptional hm =>
      obtain ⟨hle, hmark, hafter⟩ := (lastMandatory_take_iff (by omega)).mp hm
      refine .inl ⟨i + 2, ⟨hi, .inr (.inr ⟨.inr hmark, by omega, fun l hl hlt => ?_⟩)⟩, rfl⟩
      rcases Nat.lt_succ_iff_lt_or_eq.mp hl with hl | rfl
      · exact hafter l (Nat.le_of_lt_succ hl) hlt
      · exact fun h => hoptional (by rw [markAt_add_one (by omega), h])
  · rintro (⟨j, ⟨hj, hself | rfl | ⟨hmark, hlt, hafter⟩⟩, rfl⟩ | ⟨⟨hpos, hk⟩, rfl⟩)
    · obtain ⟨hpos, hrepeated, rfl⟩ := hself
      obtain ⟨k, rfl⟩ : ∃ i, j = i + 1 := ⟨j - 1, by omega⟩
      exact .again (by rw [markAt_add_one hj, hrepeated])
    · exact .next hj
    · obtain ⟨i, rfl⟩ : ∃ i, j = i + 2 := ⟨j - 2, by omega⟩
      have hmark : markAt marks k = .once := hmark.elim (fun h => h ▸ rfl) id
      refine .past hj ?_ ((lastMandatory_take_iff (by omega)).mpr
        ⟨by omega, hmark, fun l hl hkl => hafter l (by omega) hkl⟩)
      rw [markAt_add_one (by omega), Ne, Option.some.injEq]
      exact hafter (i + 1) (by omega) (by omega)
    · exact .firstSkip hpos hk

/-- From a place links lead to the tokens to which a match may go on, and to the next skip. -/
theorem linked_iff {p q : Place} (hp : p.Within marks.length) :
    Linked marks p q ↔ (∃ j ∈ candidates marks p, q = ⟨j, 0⟩) ∨
      (1 ≤ p.token ∧ p.token < marks.length ∧ p.passed < 2) ∧ q = ⟨p.token, p.passed + 1⟩ := by
  obtain ⟨_, hp⟩ := hp
  rcases p with ⟨k, _ | h⟩
  · rw [linked_token_iff]
    simp only [Nat.zero_lt_two, and_true, Nat.zero_add]
  · have hp : 1 ≤ k ∧ k < marks.length ∧ h + 1 ≤ 2 := by simpa using hp
    simp only [mem_candidates_passed]
    constructor
    · intro hlinked
      cases hlinked with
      | secondSkip hpos hk => exact .inr ⟨⟨hpos, hk, Nat.one_lt_two⟩, rfl⟩
      | resume _ hk _ => exact .inl ⟨k + 1, ⟨hk, rfl⟩, rfl⟩
    · rintro (⟨j, ⟨hk, rfl⟩, rfl⟩ | ⟨⟨hpos, hk, hh⟩, rfl⟩)
      · exact .resume hp.1 hk (by omega)
      · obtain rfl : h = 0 := by omega
        exact .secondSkip hpos hk

/-! ### Successors -/

/-- The successors of a place are sorted targets of links. -/
theorem next_eq_sortIds {p : Place} (hp : p.Within items.length) :
    (Graph.ofNodes items).next p.id = Node.sortIds (stateNode (items.map (·.1)))
      (Link.targetsFrom p.id (Frontier.start.allLinks (items.map (·.2)))) := by
  rw [Graph.next, state?_place hp, targets_eq_laid _ p (hp.2.imp_right fun h => ⟨h.1, h.2.2⟩)]
  rfl

/-- No link is laid twice. -/
theorem nodup_laid (marks : List Mark) (p : Place) : (laid marks p).Nodup := by
  rcases p with ⟨k, _ | _ | _ | h⟩
  · exact (laid_pairwise marks k).imp Nat.ne_of_lt
  · rw [laid]
    split
    · have hne : 3 * k + 1 ≠ tokenId (k + 1) := by
        unfold tokenId
        omega
      exact List.nodup_cons.mpr ⟨fun h => hne (List.mem_singleton.mp h), List.nodup_singleton _⟩
    · exact List.nodup_nil
  · rw [laid]
    split
    · exact List.nodup_singleton _
    · exact List.nodup_nil
  · exact List.nodup_nil

theorem nodup_next {p : Place} (hp : p.Within items.length) :
    ((Graph.ofNodes items).next p.id).Nodup := by
  rw [next_eq_sortIds hp, (Node.perm_sortIds _).nodup_iff,
    targets_eq_laid _ p (hp.2.imp_right fun h => ⟨h.1, h.2.2⟩)]
  exact nodup_laid _ p

section

variable (hitems : NoSkips (items.map (·.1)))
include hitems

theorem mem_next_place {p : Place} (hp : p.Within items.length) {id : Nat} :
    id ∈ (Graph.ofNodes items).next p.id ↔ ∃ q, Linked (items.map (·.2)) p q ∧ q.id = id := by
  have hlength : (items.map (·.2)).length = items.length := List.length_map _
  rw [next_place hitems hp, List.mem_append, List.mem_map]
  simp only [linked_iff (hlength.symm ▸ hp), mem_tried, hlength]
  constructor
  · rintro (⟨j, hj, rfl⟩ | hid)
    · exact ⟨⟨j, 0⟩, .inl ⟨j, hj, rfl⟩, rfl⟩
    · split at hid
      · next hpass => exact ⟨_, .inr ⟨hpass, rfl⟩, (List.mem_singleton.mp hid).symm⟩
      · cases hid
  · rintro ⟨q, ⟨j, hj, rfl⟩ | ⟨hpass, rfl⟩, rfl⟩
    · exact .inl ⟨j, hj, rfl⟩
    · exact .inr (by rw [if_pos hpass]; exact List.mem_singleton_self _)

theorem mem_next_iff {source target : Nat} :
    target ∈ (Graph.ofNodes items).next source ↔
      ∃ p q, Linked (items.map (·.2)) p q ∧ p.id = source ∧ q.id = target := by
  have hlength : (items.map (·.2)).length = items.length := List.length_map _
  constructor
  · intro h
    have hlt : source < tokenId (items.length + 1) := by
      rw [← size_ofNodes]
      by_contra hge
      rw [Graph.next, Graph.state?, Array.getElem?_eq_none (Nat.not_lt.mp hge)] at h
      cases h
    obtain ⟨p, hp, rfl⟩ := exists_place_of_lt hlt
    obtain ⟨q, hlinked, hq⟩ := (mem_next_place hitems hp).mp h
    exact ⟨p, q, hlinked, rfl, hq⟩
  · rintro ⟨p, q, hlinked, rfl, hq⟩
    exact (mem_next_place hitems (hlength ▸ hlinked.within.1)).mpr ⟨q, hlinked, hq⟩

/-- A skip is listed behind all tokens. -/
theorem getLast?_next {p : Place} (hp : p.Within items.length) {id : Nat}
    (hid : id ∈ (Graph.ofNodes items).next p.id) (hskip : (Graph.ofNodes items).isSkip id = true) :
    ((Graph.ofNodes items).next p.id).getLast? = some id := by
  rw [next_place hitems hp] at hid ⊢
  rcases List.mem_append.mp hid with htoken | hpass
  · obtain ⟨j, hj, rfl⟩ := List.mem_map.mp htoken
    obtain ⟨_, hpos, hle⟩ := candidates_bounds (mem_tried.mp hj)
    have hplace := isSkip_place hitems (p := ⟨j, 0⟩) ⟨by simpa using hle, .inl rfl⟩ hpos
    rw [show (⟨j, 0⟩ : Place).id = tokenId j from rfl, hskip] at hplace
    cases hplace
  · split at hpass
    · next h => rw [if_pos h, List.mem_singleton.mp hpass, List.getLast?_concat]
    · cases hpass

end
end Greedy

namespace Graph

/-- The node of a state. -/
def nodeOf (g : Graph) (id : Nat) : Node := ((g.state? id).map (·.node)).getD .skip

section OfNodes

open Greedy

variable {items : List (Node × Mark)}

theorem size_ofNodes_eq :
    (ofNodes items).size = if items.length = 0 then 1 else 3 * items.length - 1 := by
  rw [size_ofNodes, tokenId]
  split <;> omega

theorem lt_size_place {p : Place} (hp : p.Within items.length) : p.id < (ofNodes items).size :=
  size_ofNodes ▸ hp.id_lt

/-- Each state is that of one place. -/
theorem existsUnique_place {id : Nat} (hid : id < (ofNodes items).size) :
    ∃! p : Place, p.Within items.length ∧ p.id = id := by
  obtain ⟨p, hp, hpid⟩ := exists_place_of_lt (size_ofNodes ▸ hid)
  exact ⟨p, ⟨hp, hpid⟩, fun q hq => Place.id_injective hq.1 hp (hq.2.trans hpid.symm)⟩

theorem nodeOf_place {p : Place} (hp : p.Within items.length) :
    (ofNodes items).nodeOf p.id = p.node (items.map (·.1)) := by
  rw [nodeOf, state?_place hp]
  rfl

/-- The state of a token has the node of the token. -/
theorem nodeOf_token {k : Nat} {item : Node × Mark} (h : items[k]? = some item) :
    (ofNodes items).nodeOf (tokenId (k + 1)) = item.1 := by
  have hk : k < items.length := (List.getElem?_eq_some_iff.mp h).1
  have hp : (⟨k + 1, 0⟩ : Place).Within items.length := ⟨hk, .inl rfl⟩
  rw [show tokenId (k + 1) = (⟨k + 1, 0⟩ : Place).id from rfl, nodeOf_place hp, Place.node, if_pos rfl,
    nodeAt, List.getElem?_map, h]
  rfl

/-- The root and the skips between the tokens pass over tokens of a text. -/
theorem nodeOf_skip {p : Place} (hp : p.Within items.length) (h : p.token = 0 ∨ p.passed ≠ 0) :
    (ofNodes items).isSkip p.id = true ∧ (ofNodes items).nodeOf p.id = .skip := by
  have hnode : p.node (items.map (·.1)) = .skip := by
    rw [Place.node]
    split
    · next hpassed => rw [h.resolve_right fun hne => hne hpassed, nodeAt]
    · rfl
  refine ⟨?_, by rw [nodeOf_place hp, hnode]⟩
  rw [isSkip, state?_place hp, hnode]
  rfl

variable (hitems : NoSkips (items.map (·.1)))
include hitems

theorem isValid_ofNodes_iff : (ofNodes items).isValid = true ↔ items.length ≠ 0 := by
  constructor
  · intro hvalid hempty
    rw [List.length_eq_zero_iff.mp hempty] at hvalid
    cases hvalid
  · exact fun hne => isValid_ofNodes hitems fun h => hne (List.length_eq_zero_iff.mpr h)

/-- No link leads out of a graph. -/
theorem lt_size_of_mem_next {source target : Nat} (h : target ∈ (ofNodes items).next source) :
    target < (ofNodes items).size := by
  obtain ⟨p, q, hlinked, _, rfl⟩ := (mem_next_iff hitems).mp h
  exact lt_size_place (by simpa using hlinked.within.2)

theorem token_le_of_mem_next {p q : Place} (hp : p.Within items.length) (hq : q.Within items.length)
    (h : q.id ∈ (ofNodes items).next p.id) : p.token ≤ q.token := by
  obtain ⟨q', hlinked, hid⟩ := (mem_next_place hitems hp).mp h
  rw [← Place.id_injective (by simpa using hlinked.within.2) hq hid]
  exact hlinked.token_le

/-- The successors of a place are sorted, and where two of them have equal nodes, the one whose link
was laid first stands in front. -/
theorem pairwise_next {p : Place} (hp : p.Within items.length) :
    ((ofNodes items).next p.id).Pairwise (Node.Sorted (ofNodes items).nodeOf fun a b =>
      [a, b].Sublist (Link.targetsFrom p.id (Frontier.start.allLinks (items.map (·.2))))) := by
  have hnode : ∀ id ∈ (ofNodes items).next p.id,
      (ofNodes items).nodeOf id = stateNode (items.map (·.1)) id := by
    intro id hid
    obtain ⟨q, hlinked, rfl⟩ := (mem_next_place hitems hp).mp hid
    have hq := hlinked.within.2
    rw [nodeOf_place (by simpa using hq), stateNode_place (by simpa using hq)]
  rw [next_eq_sortIds hp] at hnode ⊢
  refine (Node.pairwise_sortIds (List.pairwise_iff_forall_sublist.mpr fun h => h)).imp_of_mem
    fun {a b} ha hb hsorted => ?_
  rwa [Node.Sorted, hnode a ha, hnode b hb]

end OfNodes

/-- A pattern is compiled to the root, a state for each token, and two skips behind each token but the
last one; without tokens, the graph is of no use. The links between these states are those of their
places, and no link leads out of the graph or to an earlier token. The successors of a state are the
targets of its links, none of them twice, sorted by priority and then by text, both descending, and else
in the order in which their links were laid; a skip comes last. -/
theorem compile_shape {σ : Type} (answer : Query → σ → SynsetSet × σ) (s : σ)
    (language pattern : String) :
    let tokens := tokensOf pattern
    let n := tokens.length
    let marks := tokens.map (·.mark)
    let g := ((compile language pattern).runWith answer s).1
    (g.size = (if n = 0 then 1 else 3 * n - 1) ∧ (g.isValid = true ↔ n ≠ 0)) ∧
    ((∀ p : Greedy.Place, p.Within n → p.id < g.size) ∧
      (∀ id < g.size, ∃! p : Greedy.Place, p.Within n ∧ p.id = id) ∧
      (∀ (k : Nat) t, tokens[k]? = some t → g.isSkip (Greedy.tokenId (k + 1)) = false ∧
        (g.nodeOf (Greedy.tokenId (k + 1))).display = t.term.render) ∧
      ∀ p : Greedy.Place, p.Within n → p.token = 0 ∨ p.passed ≠ 0 →
        g.isSkip p.id = true ∧ g.nodeOf p.id = .skip) ∧
    ((∀ source target, target ∈ g.next source ↔
        ∃ p q, Greedy.Linked marks p q ∧ p.id = source ∧ q.id = target) ∧
      (∀ source, ∀ target ∈ g.next source, target < g.size) ∧
      ∀ p q : Greedy.Place, p.Within n → q.Within n → q.id ∈ g.next p.id → p.token ≤ q.token) ∧
    ∀ id < g.size,
      let laid := Link.targetsFrom id (Frontier.start.allLinks marks)
      (g.next id).Nodup ∧ (g.next id).Perm laid ∧
      (g.next id).Pairwise (Node.Sorted g.nodeOf fun a b => [a, b].Sublist laid) ∧
      ∀ skip ∈ g.next id, g.isSkip skip = true → (g.next id).getLast? = some skip := by
  intro tokens n marks g
  obtain ⟨items, hitems, hmarks, hdisplays, hgraph⟩ := exists_items_runWith answer s language pattern
  have hlength : n = items.length := (length_of_marks_eq hmarks).symm
  replace hmarks : marks = items.map (·.2) := hmarks.symm
  replace hgraph : g = ofNodes items := hgraph
  -- all that is said about the graph is said in terms of these items
  clear_value g marks n
  subst hlength hmarks hgraph
  refine ⟨⟨size_ofNodes_eq, isValid_ofNodes_iff hitems⟩,
    ⟨fun _ => lt_size_place, fun _ => existsUnique_place, fun k t ht => ?_, fun _ => nodeOf_skip⟩,
    ⟨fun _ _ => Greedy.mem_next_iff hitems, fun _ _ => lt_size_of_mem_next hitems,
      fun _ _ => token_le_of_mem_next hitems⟩, fun id hid => ?_⟩
  · have ht : (tokensOf pattern)[k]? = some t := ht
    have hdisplay := congrArg (·[k]?) hdisplays
    simp only [List.getElem?_map, ht] at hdisplay
    obtain ⟨item, hitem, hrender⟩ := Option.map_eq_some_iff.mp hdisplay
    have hk : k < items.length := (List.getElem?_eq_some_iff.mp hitem).1
    exact ⟨Greedy.isSkip_place hitems (p := ⟨k + 1, 0⟩) ⟨hk, .inl rfl⟩ (Nat.succ_pos k),
      by rw [nodeOf_token hitem, hrender]⟩
  · intro laid
    obtain ⟨p, ⟨hp, rfl⟩, _⟩ := existsUnique_place hid
    refine ⟨Greedy.nodup_next hp, ?_, pairwise_next hitems hp,
      fun _ => Greedy.getLast?_next hitems hp⟩
    rw [Greedy.next_eq_sortIds hp]
    exact Node.perm_sortIds _

/-- A pattern with two tokens of one text that may be left out, between two mandatory ones. -/
theorem compile_shape_omissions :
    let answer : Query → Unit → SynsetSet × Unit := fun q s => (Dictionary.empty.lexicon q, s)
    let tokens := tokensOf "xxx yyy? yyy* zzz"
    let g := ((compile "en" "xxx yyy? yyy* zzz").runWith answer ()).1
    (tokens[2]? = some ⟨.literal "yyy", .repeated⟩ ∧ (g.nodeOf 5).display = "yyy") ∧
      (g.size = 11 ∧ g.isValid = true ∧ g.isSkip 3 = true) ∧
      (Greedy.Linked (tokens.map (·.mark)) ⟨1, 0⟩ ⟨4, 0⟩ ∧ 8 ∈ g.next 1 ∧ 8 < g.size ∧ 5 ∈ g.next 5) ∧
      (g.next 1).Nodup ∧ (g.next 1).getLast? = some 3 ∧ g.next 1 = [8, 2, 5, 3] := by
  intro answer tokens g
  obtain ⟨⟨hsize, hvalid⟩, ⟨_, _, hdisplay, hskip⟩, ⟨hnext, hlt, _⟩, hlist⟩ :=
    compile_shape answer () "en" "xxx yyy? yyy* zzz"
  have htokens : tokens = [⟨.literal "xxx", .once⟩, ⟨.literal "yyy", .optional⟩,
      ⟨.literal "yyy", .repeated⟩, ⟨.literal "zzz", .once⟩] := by
    decide +kernel
  have hlength : tokens.length = 4 := by rw [htokens]; rfl
  have hmarks : tokens.map (·.mark) = [.once, .optional, .repeated, .once] := by rw [htokens]; rfl
  have htoken : tokens[2]? = some ⟨.literal "yyy", .repeated⟩ := by rw [htokens]; rfl
  have hskip3 : g.isSkip 3 = true :=
    (hskip ⟨1, 1⟩ (hlength ▸ ⟨by decide, .inr (by decide)⟩) (.inr (by decide))).1
  have hpast : Greedy.Linked (tokens.map (·.mark)) ⟨1, 0⟩ ⟨4, 0⟩ := by
    rw [hmarks]
    exact .past (i := 2) (by decide) (by decide)
      ((Greedy.lastMandatory_take_iff (by decide)).mpr (by decide))
  have hpast8 : 8 ∈ g.next 1 := (hnext 1 8).mpr ⟨_, _, hpast, rfl, rfl⟩
  have hagain5 : 5 ∈ g.next 5 :=
    (hnext 5 5).mpr ⟨⟨3, 0⟩, ⟨3, 0⟩, by rw [hmarks]; exact .again rfl, rfl, rfl⟩
  have hfirst1 : 1 ∈ g.next 0 :=
    (hnext 0 1).mpr ⟨⟨0, 0⟩, ⟨1, 0⟩, by rw [hmarks]; exact .next (by decide), rfl, rfl⟩
  have hfirst3 : 3 ∈ g.next 1 :=
    (hnext 1 3).mpr ⟨⟨1, 0⟩, ⟨1, 1⟩, by rw [hmarks]; exact .firstSkip (by decide) (by decide), rfl, rfl⟩
  obtain ⟨hnodup, _, _, hlast⟩ := hlist 1 (hlt 0 1 hfirst1)
  exact ⟨⟨htoken, (hdisplay 2 _ htoken).2⟩,
    ⟨by rw [hsize, hlength]; rfl, hvalid.mpr (by rw [hlength]; decide), hskip3⟩,
    ⟨hpast, hpast8, hlt 1 8 hpast8, hagain5⟩,
    hnodup, hlast 3 hfirst3 hskip3, by decide +kernel⟩

end Graph
end TokenPatterns
