import TokenPatterns.Lexicon.Dictionary
import TokenPatterns.Pattern.Style
import TokenPatterns.Pattern.Walk

/-! Matchers: compiled patterns with an identifier and style labels.

A matcher looks words up where it is used, unless it has a lexicon of its own; then it asks
nothing of anyone else. -/
namespace TokenPatterns

structure Matcher where
  id : String
  pattern : String
  styles : Bindings
  graph : Graph
  lexicon : Option Lexicon := none

namespace Matcher

/-- Merges the labels of a style text into those of the matcher. -/
def addStyleText (m : Matcher) (styles : String) : Matcher :=
  {m with styles := m.styles.overlay (Style.parse styles)}

/-- Merges labels into those of the matcher. -/
def addStyles (m : Matcher) (styles : Bindings) : Matcher :=
  {m with styles := m.styles.overlay styles}

def addStyle (m : Matcher) (key value : String) : Matcher :=
  {m with styles := m.styles.insert key value}

/-- The matcher of a graph, with the labels of a style text if there is one. -/
def ofGraph (id pattern : String) (styles : Option String) (graph : Graph) : Matcher :=
  let m : Matcher := {id, pattern, styles := ∅, graph}
  match styles with
  | some styles => m.addStyleText styles
  | none => m

/-- Compiles a pattern, looking up its synonyms in a language. -/
def compile (id pattern : String) (styles : Option String) (language : String) : Inquiry Matcher :=
  ofGraph id pattern styles <$> Graph.compile language pattern

/-- The matcher of a pattern whose words are looked up in the identity dictionary. -/
def standalone (digits : String → String) (id pattern : String) (styles : Option String) : Matcher :=
  let lexicon := (Dictionary.identity digits).lexicon
  {(compile id pattern styles Graph.defaultLanguage).run lexicon with lexicon := some lexicon}

/-- A pattern without tokens is of no use. -/
def isValid (m : Matcher) : Bool := m.graph.isValid

/-- Matches the tokens of a range of the text, beginning with its first one. -/
def matchAt (m : Matcher) (text : Text) (start stop : Nat) : Inquiry PatternMatch :=
  match m.lexicon with
  | some own => (m.graph.matchAt text start stop).settle own
  | none => m.graph.matchAt text start stop

end Matcher
end TokenPatterns
