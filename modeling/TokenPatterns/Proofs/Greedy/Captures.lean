import TokenPatterns.Proofs.Greedy.Mandatory
import TokenPatterns.Proofs.Phrases

/-! What a match captures.

Under each name a match captures the words of the tokens that it took with this label, as one
phrase (`getElem?_captured`). -/
namespace TokenPatterns

namespace Text

/-- The words from one position up to another one. -/
def between (text : Text) (i j : Nat) : List String := (text.words.drop i).take (j - i)

theorem map_range'_words (text : Text) {i d : Nat} (h : i + d ≤ text.size) :
    (List.range' i d).map (fun x => ((text.token? x).map (·.text)).getD "") =
      text.between i (i + d) := by
  have hlength : text.words.length = text.size := by
    rw [words, List.length_map, Array.length_toList, size]
  refine List.ext_getElem ?_ fun x hx _ => ?_
  · rw [List.length_map, List.length_range', between, List.length_take, List.length_drop, hlength]
    omega
  · have hlt : i + x < text.tokens.size := by
      rw [List.length_map, List.length_range'] at hx
      exact Nat.lt_of_lt_of_le (Nat.add_lt_add_left hx i) h
    simp only [List.getElem_map, List.getElem_range', Nat.one_mul, token?, between,
      List.getElem_take, List.getElem_drop, words, Array.getElem_toList,
      Array.getElem?_eq_getElem hlt, Option.map_some, Option.getD_some]

end Text

namespace Greedy

/-! ### What moves capture -/

/-- The words that some moves capture under a name. -/
def wordsUnder (nodes : List Node) (text : Text) (name : String) (moves : List Move) :
    List String :=
  Capture.wordsOf name (moves.map fun m =>
    (label? nodes m, ((text.token? m.index).map (·.text)).getD ""))

section Words

variable {nodes : List Node} {text : Text} {name : String} {moves : List Move}

theorem getElem?_captured :
    (captured nodes text moves)[name]? = phrase? (wordsUnder nodes text name moves) :=
  Capture.getElem?_bindings ..

theorem wordsUnder_append (moves more : List Move) :
    wordsUnder nodes text name (moves ++ more) =
      wordsUnder nodes text name moves ++ wordsUnder nodes text name more := by
  rw [wordsUnder, List.map_append, Capture.wordsOf, List.filterMap_append]
  rfl

theorem wordsUnder_of_ne (h : ∀ m ∈ moves, label? nodes m ≠ some name) :
    wordsUnder nodes text name moves = [] := by
  rw [wordsUnder, Capture.wordsOf, List.filterMap_map, List.filterMap_eq_nil_iff]
  intro m hm
  exact if_neg (h m hm)

theorem wordsUnder_of_eq (h : ∀ m ∈ moves, label? nodes m = some name) :
    wordsUnder nodes text name moves =
      moves.map fun m => ((text.token? m.index).map (·.text)).getD "" := by
  rw [wordsUnder, Capture.wordsOf, List.filterMap_map, ← List.filterMap_eq_map]
  refine List.filterMap_congr fun m hm => ?_
  exact if_pos (h m hm)

end Words

variable {lexicon : Lexicon} {language : String} {tokens : List PatternToken} {text : Text}
  {stop : Nat}

theorem label?_take {k : Nat} {t : PatternToken} (htoken : tokens[k]? = some t) (index : Nat) :
    label? ((prepare lexicon language tokens).map (·.1)) ⟨⟨k + 1, 0⟩, index⟩ =
      t.term.capture? := by
  rw [label?, if_pos rfl, nodeAt_prepare htoken, PatternToken.node, Inquiry.run_bind,
    Inquiry.run_pure]

/-- A stretch captures nothing under a name that is no label of its tokens. -/
theorem Stretch.wordsUnder {ts rest : List PatternToken} {k i j : Nat} {moves : List Move}
    {name : String} (h : Stretch k ts.length i j moves) (hdrop : tokens.drop k = ts ++ rest)
    (hname : ∀ t ∈ ts, t.term.capture? ≠ some name) :
    wordsUnder ((prepare lexicon language tokens).map (·.1)) text name moves = [] := by
  refine wordsUnder_of_ne ?_
  intro m hm
  obtain ⟨⟨token, passed⟩, index⟩ := m
  by_cases hpassed : passed = 0
  · subst hpassed
    have hlt := h.takes _ hm rfl
    have hle := (h.tokens _ hm).2
    obtain ⟨x, rfl⟩ := Nat.exists_eq_add_of_lt hlt
    have hx : x < ts.length := by
      have : k + x + 1 ≤ k + ts.length := hle
      omega
    have htoken : tokens[k + x]? = some ts[x] := by
      rw [← List.getElem?_drop, hdrop, List.getElem?_append_left hx, List.getElem?_eq_getElem hx]
    rw [label?_take htoken]
    exact hname _ (List.getElem_mem hx)
  · rw [label?, if_neg hpassed]
    exact (Option.some_ne_none name).symm

end Greedy
end TokenPatterns
