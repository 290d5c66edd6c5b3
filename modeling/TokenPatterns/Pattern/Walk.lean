import TokenPatterns.Pattern.Capture
import TokenPatterns.Pattern.Graph

/-! Walks through a graph, and the matches they give.

A walk starts at the root and takes one token of the text after another. At each token it goes to
the first successor that accepts the token and never returns to try another one; it stops where no
successor accepts, or at the end of its range. It is a match if it stops at a final state. -/
namespace TokenPatterns

/-- One step of a walk: the state it leads to and the position of the token it takes. -/
structure Step where
  state : Nat
  index : Nat
deriving DecidableEq

/-- What matching a pattern at a position gives. -/
structure PatternMatch where
  /-- The tokens taken by states other than skips. -/
  matchCount : Nat
  /-- All the tokens taken. -/
  window : Nat
  captures : Bindings
deriving DecidableEq

namespace PatternMatch

/-- No match. -/
def none : PatternMatch := ⟨0, 0, ∅⟩

def isMatch (m : PatternMatch) : Bool := 0 < m.matchCount || 0 < m.window

end PatternMatch

namespace Graph

/-- The first of some states that accepts the token at a position. -/
def choose (g : Graph) (text : Text) (index : Nat) : List Nat → Inquiry (Option Nat)
  | [] => pure none
  | id :: ids => do
    if ← g.accepts text id index then pure (some id) else g.choose text index ids

/-- The steps of a walk from a state over at most some number of tokens. -/
def walk (g : Graph) (text : Text) : (state index remaining : Nat) → Inquiry (List Step)
  | _, _, 0 => pure []
  | state, index, remaining + 1 => do
    match ← g.choose text index (g.next state) with
    | none => pure []
    | some id => do
      let steps ← g.walk text id (index + 1) remaining
      pure (⟨id, index⟩ :: steps)

/-- The state in which a walk ends. -/
def lastState (steps : List Step) : Nat := (steps.getLast?.map (·.state)).getD root

/-- What the steps of a walk capture. -/
def captured (g : Graph) (text : Text) (steps : List Step) : Bindings :=
  Capture.bindings (steps.map fun s =>
    (g.label? s.state, ((text.token? s.index).map (·.text)).getD ""))

/-- What a walk gives. -/
def outcome (g : Graph) (text : Text) (steps : List Step) : PatternMatch :=
  if g.isFinal (lastState steps) then
    { matchCount := steps.countP fun s => !g.isSkip s.state
      window := steps.length
      captures := g.captured text steps }
  else .none

/-- The steps of the walk that starts at a position and ends before another one, or before the end
of the text. -/
def walkAt (g : Graph) (text : Text) (start stop : Nat) : Inquiry (List Step) :=
  g.walk text root start (min stop text.size - start)

/-- Matches the tokens of a range, beginning with its first one. -/
def matchAt (g : Graph) (text : Text) (start stop : Nat) : Inquiry PatternMatch :=
  g.outcome text <$> g.walkAt text start stop

/-! ### Walks under a lexicon -/

variable (lexicon : Lexicon) (g : Graph) (text : Text)

theorem run_choose (index : Nat) (ids : List Nat) :
    (g.choose text index ids).run lexicon =
      ids.find? fun id => (g.accepts text id index).run lexicon := by
  induction ids with
  | nil => rfl
  | cons id ids ih =>
    rw [choose, Inquiry.run_bind, List.find?_cons]
    cases (g.accepts text id index).run lexicon with
    | true => rfl
    | false => exact ih

/-- A walk goes on with the first successor that accepts. -/
theorem run_walk_of_choose {state index remaining id : Nat}
    (h : (g.choose text index (g.next state)).run lexicon = some id) :
    (g.walk text state index (remaining + 1)).run lexicon =
      ⟨id, index⟩ :: (g.walk text id (index + 1) remaining).run lexicon := by
  rw [walk, Inquiry.run_bind, h]
  exact Inquiry.run_bind ..

/-- A walk ends where no successor accepts. -/
theorem run_walk_of_stuck {state index remaining : Nat}
    (h : (g.choose text index (g.next state)).run lexicon = none) :
    (g.walk text state index (remaining + 1)).run lexicon = [] := by
  rw [walk, Inquiry.run_bind, h]
  rfl

theorem run_matchAt (start stop : Nat) :
    (g.matchAt text start stop).run lexicon =
      g.outcome text ((g.walkAt text start stop).run lexicon) :=
  Inquiry.run_map ..

end Graph
end TokenPatterns
