import TokenPatterns.Pattern.Link
import TokenPatterns.Pattern.Node
import TokenPatterns.Pattern.Worklist

/-! Pattern graphs.

The graph of a pattern has a state for each node: the node itself, whether a match may end there,
and its successors in the order in which they are tried. A match may end at the last mandatory
token and wherever links lead from there without passing over a token of the text. -/
namespace TokenPatterns

structure State where
  node : Node
  isFinal : Bool
  /-- The successors by number, those that are tried first in front. -/
  next : List Nat

structure Graph where
  states : Array State

/-- Numbers sorted by their nodes. Each number goes in front of the first one that does not come
before it, so that equal nodes keep their order. -/
def Node.sortIds (node : Nat → Node) (ids : List Nat) : List Nat :=
  ids.foldr (fun id sorted =>
    let before (other : Nat) := (node other).before (node id)
    sorted.takeWhile before ++ id :: sorted.dropWhile before) []

namespace Graph

/-- The nodes in their numbering: the root, the node of the first token, and for every other token
its node and two nodes that pass over tokens. -/
def layout : List Node → List Node
  | [] => [.skip]
  | first :: rest => .skip :: first :: rest.flatMap fun node => [node, .skip, .skip]

/-- The marks of the states at which a match may end. -/
def finals (nodes : Array Node) (links : List Link) (lastMandatory : Nat) : Array Bool :=
  ((Worklist.start nodes.size lastMandatory).steps (Link.targets nodes.size links)
    (fun id => nodes[id]?.any (!·.isSkip)) (links.length + 1)).marked

/-- The graph of a sequence of nodes with the marks of their tokens. -/
def ofNodes (items : List (Node × Mark)) : Graph :=
  let nodes := (layout (items.map (·.1))).toArray
  let marks := items.map (·.2)
  let links := Frontier.start.allLinks marks
  let final := finals nodes links (Frontier.start.advanceAll marks).lastMandatory
  let targets := Link.targets nodes.size links
  let node (id : Nat) : Node := nodes[id]?.getD .skip
  ⟨nodes.mapIdx fun id n =>
    ⟨n, final[id]?.getD false, Node.sortIds node (targets[id]?.getD [])⟩⟩

/-- The graph of a sequence of pattern tokens, synonyms being looked up in a language. -/
def ofTokens (language : String) (tokens : List PatternToken) : Inquiry Graph := do
  let nodes ← tokens.mapM (·.node language)
  pure (ofNodes (nodes.zip (tokens.map (·.mark))))

/-- The graph of a pattern. -/
def compile (language pattern : String) : Inquiry Graph := ofTokens language (tokensOf pattern)

/-- The language of patterns for which none is chosen. -/
def defaultLanguage : String := "en"

/-- The number of the state where every walk starts. -/
def root : Nat := 0

def size (g : Graph) : Nat := g.states.size

def isEmpty (g : Graph) : Bool := g.states.isEmpty

def state? (g : Graph) (id : Nat) : Option State := g.states[id]?

/-- The successors of a state, those that are tried first in front. -/
def next (g : Graph) (id : Nat) : List Nat := ((g.state? id).map (·.next)).getD []

def isFinal (g : Graph) (id : Nat) : Bool := (g.state? id).any (·.isFinal)

def isSkip (g : Graph) (id : Nat) : Bool := (g.state? id).any (·.node.isSkip)

def label? (g : Graph) (id : Nat) : Option String := (g.state? id).bind (·.node.label)

/-- A graph is of use only if its root leads somewhere. -/
def isValid (g : Graph) : Bool := !(g.next root).isEmpty

/-- Whether the token at a position passes the test of a state. -/
def accepts (g : Graph) (text : Text) (id index : Nat) : Inquiry Bool :=
  match g.state? id with
  | some s => s.node.test.accepts text index
  | none => pure false

end Graph
end TokenPatterns
