import TokenPatterns.Lexicon.Dictionary
import TokenPatterns.Proofs.Grammar
import TokenPatterns.Proofs.Greedy.Simulation

/-! The states of the tokens of a pattern.

The states of a graph that are no skips stand for the tokens of its pattern, in order
(`tokenStates_ofNodes`): each has the node of its token, and leads back to itself if the token may be
repeated. So a pattern that is written token by token gives a graph with just these states. -/
namespace TokenPatterns

namespace Greedy

variable {items : List (Node × Mark)}

/-! ### States and places -/

/-- Each number below the size of a graph is that of a place. -/
theorem exists_place_of_lt {n id : Nat} (h : id < tokenId (n + 1)) :
    ∃ p : Place, p.Within n ∧ p.id = id := by
  have htoken : ∀ k ≤ n, id = tokenId k → ∃ p : Place, p.Within n ∧ p.id = id := fun k hk hid =>
    ⟨⟨k, 0⟩, ⟨hk, .inl rfl⟩, hid.symm⟩
  have hskip : ∀ k g, 1 ≤ k → k < n → g < 2 → id = 3 * k + g → ∃ p : Place, p.Within n ∧ p.id = id :=
    fun k g hpos hk hg hid => ⟨⟨k, g + 1⟩, ⟨Nat.le_of_lt hk, .inr ⟨hpos, hk, hg⟩⟩, hid.symm⟩
  unfold tokenId at h htoken
  rcases (by omega : id ≤ 1 ∨ 2 ≤ id ∧ (id % 3 = 2 ∨ id % 3 = 0 ∨ id % 3 = 1)) with
    hle | ⟨hle, hmod | hmod | hmod⟩
  · exact htoken id (by omega) (by omega)
  · exact htoken (id / 3 + 2) (by omega) (by omega)
  · exact hskip (id / 3) 0 (by omega) (by omega) (by omega) (by omega)
  · exact hskip (id / 3) 1 (by omega) (by omega) (by omega) (by omega)

theorem size_ofNodes : (Graph.ofNodes items).size = tokenId (items.length + 1) := by
  simp [Graph.size, Graph.ofNodes, length_layout]

theorem isSkip_root : (Graph.ofNodes items).isSkip (tokenId 0) = true := by
  have hstate := state?_place (start_within items.length)
  rw [Graph.isSkip, show tokenId 0 = start.id from rfl, hstate]
  rfl

variable (hitems : NoSkips (items.map (·.1)))
include hitems

/-- The states of tokens are no skips, and no other state is. -/
theorem not_isSkip_iff {id : Nat} (hid : id < (Graph.ofNodes items).size) :
    (Graph.ofNodes items).isSkip id = false ↔ ∃ k < items.length, tokenId (k + 1) = id := by
  rw [size_ofNodes] at hid
  obtain ⟨p, hp, rfl⟩ := exists_place_of_lt hid
  constructor
  · intro hskip
    rcases p with ⟨_ | k, g⟩
    · obtain rfl : g = 0 := by simpa using hp.2
      rw [show (⟨0, 0⟩ : Place).id = tokenId 0 from rfl, isSkip_root] at hskip
      cases hskip
    · rw [isSkip_place hitems hp (Nat.succ_pos k)] at hskip
      obtain rfl : g = 0 := by simpa using hskip
      exact ⟨k, hp.1, rfl⟩
  · rintro ⟨k, hk, htoken⟩
    rw [← htoken]
    exact isSkip_place hitems (p := ⟨k + 1, 0⟩) ⟨hk, .inl rfl⟩ (Nat.succ_pos k)

/-- The state of a token leads back to itself if the token may be repeated. -/
theorem mem_next_self {k : Nat} (hk : k < items.length) :
    tokenId (k + 1) ∈ (Graph.ofNodes items).next (tokenId (k + 1)) ↔
      markAt (items.map (·.2)) (k + 1) = .repeated := by
  have hp : (⟨k + 1, 0⟩ : Place).Within items.length := ⟨hk, .inl rfl⟩
  have hskip : ∀ id ∈ (if 1 ≤ k + 1 ∧ k + 1 < items.length ∧ 0 < 2 then
      [(⟨k + 1, 1⟩ : Place).id] else []), tokenId (k + 1) ≠ id := by
    intro id hid heq
    split at hid
    · next hpass =>
      rw [List.mem_singleton.mp hid] at heq
      have hplace := Place.id_injective hp (q := ⟨k + 1, 1⟩)
        ⟨hk, .inr ⟨hpass.1, hpass.2.1, Nat.le_succ 1⟩⟩ heq
      cases hplace
    · cases hid
  have hnext := next_place hitems hp
  rw [show (⟨k + 1, 0⟩ : Place).id = tokenId (k + 1) from rfl] at hnext
  rw [hnext, List.mem_append, or_iff_left fun hmem => hskip _ hmem rfl, List.mem_map]
  simp only [tokenId_inj, exists_eq_right, mem_tried, mem_candidates, List.length_map]
  constructor
  · intro hj
    rcases hj.2 with ⟨_, hrepeated, _⟩ | hnext | ⟨_, hfar, _⟩
    · exact hrepeated
    · omega
    · omega
  · exact fun hrepeated => ⟨hk, .inl ⟨Nat.succ_pos k, hrepeated, rfl⟩⟩

end Greedy

namespace Graph

/-- The states that are no skips, in order. -/
def tokenStates (g : Graph) : List Nat := (List.range g.size).filter fun id => !g.isSkip id

theorem tokenStates_ofNodes {items : List (Node × Mark)} (hitems : Greedy.NoSkips (items.map (·.1))) :
    tokenStates (ofNodes items) = (List.range items.length).map fun k => Greedy.tokenId (k + 1) := by
  refine List.Pairwise.eq_of_mem_iff (r := (· < ·)) ?_ ?_ fun id => ?_
  · exact List.Pairwise.filter _ List.pairwise_lt_range
  · rw [List.pairwise_map]
    exact List.pairwise_lt_range.imp fun h => Greedy.tokenId_lt_tokenId (Nat.succ_lt_succ h)
  · rw [tokenStates, List.mem_filter, List.mem_range, List.mem_map, Bool.not_eq_true']
    constructor
    · rintro ⟨hid, hskip⟩
      obtain ⟨k, hk, rfl⟩ := (Greedy.not_isSkip_iff hitems hid).mp hskip
      exact ⟨k, List.mem_range.mpr hk, rfl⟩
    · rintro ⟨k, hk, rfl⟩
      have hk := List.mem_range.mp hk
      have hid : Greedy.tokenId (k + 1) < (ofNodes items).size := by
        rw [Greedy.size_ofNodes]
        exact Greedy.tokenId_lt_tokenId (Nat.succ_lt_succ hk)
      exact ⟨hid, (Greedy.not_isSkip_iff hitems hid).mpr ⟨k, hk, rfl⟩⟩

end Graph

/-- The node of a token when a lexicon answers. A variable captures under its name and only consumes,
other terms under their labels. -/
def PatternToken.nodeUnder (lexicon : Lexicon) (language : String) (t : PatternToken) : Node :=
  let priority : Priority := if t.mark = .once then .mandatory else .optional
  match t.term with
  | .literal word => ⟨.literal word, word, priority, none⟩
  | .variable name => ⟨.variable, "$" ++ name, .consume, some name⟩
  | .tagged cls label =>
    ⟨.tagged (PartOfSpeech.codes cls), "<" ++ cls ++ Term.labelText label ++ ">", priority,
      label.map ("#" ++ ·)⟩
  | .synonym word classes label =>
    let restriction := (classes.head?.bind WordClass.ofGenericName?).toList
    ⟨.synonym language (lexicon ⟨language, word, restriction⟩),
      "[" ++ "|".intercalate (word :: classes) ++ Term.labelText label ++ "]", priority,
      label.map ("#" ++ ·)⟩

theorem PatternToken.run_node (lexicon : Lexicon) (language : String) (t : PatternToken) :
    (t.node language).run lexicon = t.nodeUnder lexicon language := by
  obtain ⟨term, mark⟩ := t
  cases term <;> cases mark <;> rfl

namespace Graph

/-- A pattern that is written token by token, with blanks between the tokens and perhaps at both ends,
has the graph of these tokens: its states but for the skips are those of the tokens, in order, each
with the node of its token, and a state leads back to itself just where its token may be repeated. -/
theorem compile_spell (lexicon : Lexicon) (language : String) {lead : String}
    {written : List (PatternToken × String)} (hlead : Letter.allBlank lead.toList = true)
    (hwritten : ∀ p ∈ written, p.1.Writable) (hparted : Parted written) :
    let tokens := written.map (·.1)
    let g := (compile language (lead ++ spell written)).run lexicon
    tokensOf (lead ++ spell written) = tokens ∧ g.tokenStates.length = tokens.length ∧
      ∀ (k : Nat) t, tokens[k]? = some t → ∃ id s, g.tokenStates[k]? = some id ∧
        g.state? id = some s ∧ s.node = t.nodeUnder lexicon language ∧
        (id ∈ s.next ↔ t.mark = .repeated) := by
  intro tokens g
  have htokens : tokensOf (lead ++ spell written) = tokens := tokensOf_spell hlead hwritten hparted
  let items := Greedy.prepare lexicon language tokens
  have hitems : Greedy.NoSkips (items.map (·.1)) := Greedy.noSkips_prepare lexicon language tokens
  have hg : g = ofNodes items := by
    rw [show g = (compile language (lead ++ spell written)).run lexicon from rfl, compile, htokens]
    exact Greedy.run_ofTokens lexicon language tokens
  have hlength : items.length = tokens.length := Greedy.length_prepare
  have hstates := tokenStates_ofNodes hitems
  rw [← hg, hlength] at hstates
  refine ⟨htokens, by rw [hstates, List.length_map, List.length_range], fun k t ht => ?_⟩
  have hk : k < items.length := hlength ▸ (List.getElem?_eq_some_iff.mp ht).1
  have hplace : (⟨k + 1, 0⟩ : Greedy.Place).Within items.length := ⟨hk, .inl rfl⟩
  have hstate := Greedy.state?_place hplace
  rw [← hg] at hstate
  refine ⟨Greedy.tokenId (k + 1), _, ?_, hstate, ?_, ?_⟩
  · rw [hstates, List.getElem?_map, List.getElem?_range (hlength ▸ hk)]
    rfl
  · dsimp only
    rw [Greedy.Place.node, if_pos rfl, Greedy.nodeAt_prepare ht, PatternToken.run_node]
  · have hnext := Greedy.mem_next_self hitems hk
    rw [Greedy.marks_prepare, Greedy.markAt_of_getElem? ht, ← hg, next,
      show Greedy.tokenId (k + 1) = (⟨k + 1, 0⟩ : Greedy.Place).id from rfl, hstate] at hnext
    exact hnext

/-- A pattern in which the signs of labels and of marks stand next to each other. -/
theorem compile_spell_signs :
    let lexicon := Dictionary.empty.lexicon
    let written : List (PatternToken × String) :=
      [(⟨.tagged "#" (some "l"), .once⟩, " "), (⟨.tagged "#*" none, .optional⟩, "\t "),
        (⟨.synonym "w" ["RB*"] (some "a|b"), .repeated⟩, " "), (⟨.literal "*", .once⟩, "\n"),
        (⟨.variable "x*", .optional⟩, "")]
    let g := (compile "en" (" " ++ spell written)).run lexicon
    (" " ++ spell written = " <##l> <#*>?\t [w|RB*#a|b]* *\n$x*?" ∧
      (∀ p ∈ written, p.1.Writable) ∧ Parted written) ∧
      ∃ id s, g.tokenStates[2]? = some id ∧ g.state? id = some s ∧ id ∈ s.next ∧
        s.node = ⟨.synonym "en" (lexicon ⟨"en", "w", [.adverb]⟩), "[w|RB*#a|b]", .optional,
          some "#a|b"⟩ := by
  intro lexicon written g
  have hwritten : ∀ p ∈ written, p.1.Writable := by decide +kernel
  have hparted : Parted written := by decide +kernel
  obtain ⟨_, _, hstates⟩ := compile_spell lexicon "en"
    (show Letter.allBlank " ".toList = true by decide) hwritten hparted
  obtain ⟨id, s, hid, hs, hnode, hself⟩ :=
    hstates 2 ⟨.synonym "w" ["RB*"] (some "a|b"), .repeated⟩ rfl
  exact ⟨⟨by decide +kernel, hwritten, hparted⟩, id, s, hid, hs, hself.mpr rfl, hnode⟩

end Graph
end TokenPatterns
