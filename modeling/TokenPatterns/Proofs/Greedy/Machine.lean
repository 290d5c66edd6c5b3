import Mathlib.Data.List.Sort
import TokenPatterns.Pattern.Walk

/-! Matching on the tokens of a pattern, without a graph.

A match stands at a *place*: behind a token of the pattern, with up to two tokens of the text
passed over since. At every token of the text it tries the tokens of the pattern to which it may
go on, in a fixed order, and takes the first one that accepts. Where none does, it passes over the
token of the text if it may, and stops otherwise; it never returns to try another token. It is a
match if it stops right behind a token after which nothing mandatory is left. -/
namespace TokenPatterns

/-- Whether a node accepts the token at a position when a lexicon answers. -/
def Node.accepts (lexicon : Lexicon) (text : Text) (n : Node) (index : Nat) : Bool :=
  (n.test.accepts text index).run lexicon

/-- Whether a pattern token accepts the token at a position when a lexicon answers. -/
def PatternToken.accepts (lexicon : Lexicon) (language : String) (text : Text) (t : PatternToken)
    (index : Nat) : Bool :=
  ((t.node language).run lexicon).accepts lexicon text index

namespace Greedy

/-- A place of a match: the last pattern token taken, counted from 1 and with the root as token 0,
and how many tokens of the text were passed over since. -/
structure Place where
  token : Nat
  passed : Nat
deriving DecidableEq

/-- A move takes one token of the text to a new place. -/
structure Move where
  place : Place
  index : Nat
deriving DecidableEq

/-- Where every match starts. -/
def start : Place := ⟨0, 0⟩

/-! ### Tokens by number -/

/-- The mark of a token; the root counts as a mandatory token. -/
def markAt (marks : List Mark) : Nat → Mark
  | 0 => .once
  | k + 1 => marks[k]?.getD .once

/-- The node of a token; the root has a node that passes over a token. -/
def nodeAt (nodes : List Node) : Nat → Node
  | 0 => .skip
  | k + 1 => nodes[k]?.getD .skip

@[simp] theorem markAt_zero (marks : List Mark) : markAt marks 0 = .once := rfl

theorem markAt_append_of_le {marks more : List Mark} {k : Nat} (h : k ≤ marks.length) :
    markAt (marks ++ more) k = markAt marks k := by
  cases k with
  | zero => rfl
  | succ k => simp only [markAt, List.getElem?_append_left (show k < marks.length by omega)]

theorem markAt_length_add_one (marks : List Mark) (mark : Mark) :
    markAt (marks ++ [mark]) (marks.length + 1) = mark := by
  simp [markAt]

/-! ### Where a match may go on -/

/-- Whether a match may go on from one token to another without passing over a token of the text:
to the token itself if it may be repeated, to the next one, and from a mandatory token or the root
past a run of tokens that may all be left out. -/
def Follows (marks : List Mark) (k j : Nat) : Prop :=
  (1 ≤ k ∧ markAt marks k = .repeated ∧ j = k) ∨ j = k + 1 ∨
    ((k = 0 ∨ markAt marks k = .once) ∧ k + 2 ≤ j ∧ ∀ i < j, k < i → markAt marks i ≠ .once)

instance (marks : List Mark) (k j : Nat) : Decidable (Follows marks k j) := by
  unfold Follows
  infer_instance

/-- The tokens to which a match may go on from a place, in ascending order. Once a token of the
text is passed over, that is the next token alone. -/
def candidates (marks : List Mark) : Place → List Nat
  | ⟨k, 0⟩ => (List.range (marks.length + 1)).filter (Follows marks k ·)
  | ⟨k, _ + 1⟩ => if k < marks.length then [k + 1] else []

/-- Whether a token is tried before another one: by priority, then by text, both descending, and
at last the earlier token first, which puts a repeated token in front of all that follow it. -/
def Ahead (nodes : List Node) (i j : Nat) : Prop :=
  (nodeAt nodes j).priority.rank < (nodeAt nodes i).priority.rank ∨
    (nodeAt nodes i).priority.rank = (nodeAt nodes j).priority.rank ∧
      ((nodeAt nodes j).display < (nodeAt nodes i).display ∨
        (nodeAt nodes i).display = (nodeAt nodes j).display ∧ i ≤ j)

instance (nodes : List Node) : DecidableRel (Ahead nodes) := fun i j => by
  unfold Ahead
  infer_instance

/-- The tokens to which a match may go on, those that are tried first in front. -/
def tried (items : List (Node × Mark)) (p : Place) : List Nat :=
  (candidates (items.map (·.2)) p).insertionSort (Ahead (items.map (·.1)))

/-- One move, given which tokens accept the token of the text at hand. -/
def step (items : List (Node × Mark)) (accepts : Nat → Bool) (p : Place) : Option Place :=
  match (tried items p).find? accepts with
  | some j => some ⟨j, 0⟩
  | none =>
    if 1 ≤ p.token ∧ p.token < items.length ∧ p.passed < 2 then some ⟨p.token, p.passed + 1⟩
    else none

/-- The moves from a place over at most some number of tokens of the text. -/
def run (items : List (Node × Mark)) (accepts : Nat → Nat → Bool) :
    (p : Place) → (index remaining : Nat) → List Move
  | _, _, 0 => []
  | p, index, remaining + 1 =>
    match step items (accepts · index) p with
    | none => []
    | some q => ⟨q, index⟩ :: run items accepts q (index + 1) remaining

/-! ### What a run gives -/

/-- The place behind some moves. -/
def lastPlace (p : Place) (moves : List Move) : Place := (moves.getLast?.map (·.place)).getD p

/-- Whether a match may end at a place: right behind a token, with a mandatory token behind it or
at it and none after it. -/
def IsEnd (marks : List Mark) (p : Place) : Prop :=
  p.passed = 0 ∧ (∃ i ≤ p.token, 1 ≤ i ∧ markAt marks i = .once) ∧
    ∀ i ≤ marks.length, p.token < i → markAt marks i ≠ .once

instance (marks : List Mark) (p : Place) : Decidable (IsEnd marks p) := by
  unfold IsEnd
  infer_instance

/-- The label under which a move captures its token of the text. -/
def label? (nodes : List Node) (m : Move) : Option String :=
  if m.place.passed = 0 then (nodeAt nodes m.place.token).label else none

/-- What the moves of a match capture. -/
def captured (nodes : List Node) (text : Text) (moves : List Move) : Bindings :=
  Capture.bindings (moves.map fun m =>
    (label? nodes m, ((text.token? m.index).map (·.text)).getD ""))

/-- What a run gives. -/
def outcome (items : List (Node × Mark)) (text : Text) (moves : List Move) : PatternMatch :=
  if IsEnd (items.map (·.2)) (lastPlace start moves) then
    { matchCount := moves.countP (·.place.passed = 0)
      window := moves.length
      captures := captured (items.map (·.1)) text moves }
  else .none

/-- The tokens of a pattern with the nodes that they have under a lexicon. -/
def prepare (lexicon : Lexicon) (language : String) (tokens : List PatternToken) :
    List (Node × Mark) :=
  tokens.map fun t => ((t.node language).run lexicon, t.mark)

/-- Whether a token, by number, accepts the token of the text at a position. -/
def accepts (lexicon : Lexicon) (text : Text) (items : List (Node × Mark)) (k index : Nat) : Bool :=
  (nodeAt (items.map (·.1)) k).accepts lexicon text index

/-- Matches the tokens of a range, beginning with its first one. -/
def matchAt (lexicon : Lexicon) (language : String) (tokens : List PatternToken) (text : Text)
    (first stop : Nat) : PatternMatch :=
  let items := prepare lexicon language tokens
  outcome items text
    (run items (accepts lexicon text items) start first (min stop text.size - first))

end Greedy
end TokenPatterns
