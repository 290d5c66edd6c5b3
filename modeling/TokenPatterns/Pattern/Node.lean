import TokenPatterns.Lexicon.Inquiry
import TokenPatterns.Pattern.Token
import TokenPatterns.Text.Basic

/-! Nodes: pattern tokens made ready for testing.

A node tests one token of a text. The words of a synonym term are looked up when its node is made,
and the word of the text whenever the node is tested; the other tests look nothing up. A node also
has a priority, which decides together with its text in which order the successors of a node are
tried. -/
namespace TokenPatterns

/-- What a node tests. -/
inductive Test where
  /-- Nothing: a token is passed over. -/
  | skip
  /-- The text of the token, letter case included. -/
  | literal (word : String)
  /-- A part-of-speech code among those given. -/
  | tagged (codes : List Int8)
  /-- A synset of the token's word among those given. -/
  | synonym (language : String) (synsets : SynsetSet)
  /-- Nothing: the token is captured. -/
  | variable

/-- Nodes of higher priority are tried first. -/
inductive Priority where
  | skip
  | consume
  | optional
  | mandatory
deriving DecidableEq

namespace Priority

def all : List Priority := [skip, consume, optional, mandatory]

def rank : Priority → Nat
  | skip => 0
  | consume => 1
  | optional => 2
  | mandatory => 3

end Priority

structure Node where
  test : Test
  /-- The pattern text for which the node stands. -/
  display : String
  priority : Priority
  /-- The label under which tokens are captured. -/
  label : Option String

namespace Node

/-- The node that passes over a token. -/
def skip : Node := ⟨.skip, "", .skip, none⟩

def isSkip (n : Node) : Bool := n.priority == .skip

/-- Whether a node is tried before another one: by priority, then by text, both descending. -/
def before (a b : Node) : Bool :=
  b.priority.rank < a.priority.rank ||
    (b.priority.rank == a.priority.rank && b.display < a.display)

end Node

namespace Term

/-- What is looked up for the word of a synonym term. -/
def query (language word : String) (classes : List String) : Query :=
  ⟨language, word, (classes.head?.bind WordClass.ofGenericName?).toList⟩

/-- The test of a term. -/
def test (language : String) : Term → Inquiry Test
  | literal word => pure (.literal word)
  | .variable _ => pure .variable
  | tagged cls _ => pure (.tagged (PartOfSpeech.codes cls))
  | synonym word classes _ => do
    let synsets ← Inquiry.lookup (query language word classes)
    pure (.synonym language synsets)

end Term

namespace PatternToken

/-- A variable only ever consumes; other terms go by whether a match must contain them. -/
def priority (t : PatternToken) : Priority :=
  match t.term, t.mark with
  | .variable _, _ => .consume
  | _, .once => .mandatory
  | _, _ => .optional

theorem priority_ne_skip (t : PatternToken) : t.priority ≠ .skip := by
  unfold priority
  split <;> exact Priority.noConfusion

/-- The node of a token, synonyms being looked up in a language. -/
def node (language : String) (t : PatternToken) : Inquiry Node := do
  let test ← t.term.test language
  pure ⟨test, t.term.render, t.priority, t.term.capture?⟩

end PatternToken

/-- The word classes that the part-of-speech tags at a position leave open: every class where
there are no tags, and otherwise the classes to which the tags belong. -/
def Text.classesAt (text : Text) (index : Nat) : List WordClass :=
  match text.layer? .pos with
  | none => WordClass.all
  | some layer =>
    match layer.atIndex index with
    | [] => WordClass.all
    | tags => WordClass.normalize (tags.filterMap (WordClass.ofTagCode? ·.label))

namespace Test

/-- Whether the token at a position passes a test. -/
def accepts (text : Text) (index : Nat) : Test → Inquiry Bool
  | .skip | .variable => pure true
  | literal word => pure ((text.token? index).any (·.text == word))
  | tagged codes =>
    pure ((text.layer? .pos).any fun layer => (layer.atIndex index).any (codes.contains ·.label))
  | synonym language synsets =>
    match text.token? index with
    | none => pure false
    | some token =>
      if synsets.isEmpty then pure false
      else do
        let own ← Inquiry.lookup ⟨language, token.text, text.classesAt index⟩
        pure (own.meets synsets)

end Test
end TokenPatterns
