import TokenPatterns.Lexicon.Dictionary
import TokenPatterns.Letter.Quoted
import TokenPatterns.Pattern.Graph

/-! Descriptions of values for a reader who debugs.

A description names a record and each of its fields. Texts in it are quoted, lists stand in square
brackets and sets in braces. -/
namespace TokenPatterns.Description

/-- A record with its fields. -/
def record (name : String) (fields : List (String × String)) : String :=
  name ++ " \x7b " ++ ", ".intercalate (fields.map fun (field, value) => field ++ ": " ++ value)
    ++ " \x7d"

def list (items : List String) : String := "[" ++ ", ".intercalate items ++ "]"

def set (items : List String) : String := "\x7b" ++ ", ".intercalate items ++ "\x7d"

def option : Option String → String
  | some value => "Some(" ++ value ++ ")"
  | none => "None"

def test : Test → String
  | .skip => "Skip"
  | .literal word => "Literal(" ++ quote word ++ ")"
  | .tagged codes => "PosClass(" ++ set (codes.map fun code => toString code.toInt) ++ ")"
  | .synonym language synsets =>
    record "SynonymSet"
      [("language", quote language), ("synsets", set (synsets.toList.map quote))]
  | .variable => "Variable"

def priority : Priority → String
  | .skip => "Skip"
  | .consume => "Consume"
  | .optional => "Optional"
  | .mandatory => "Mandatory"

def state (s : State) : String :=
  record "MatcherNode"
    [("kind", test s.node.test), ("pattern", quote s.node.display),
      ("priority", priority s.node.priority), ("label", option (s.node.label.map quote)),
      ("is_final", toString s.isFinal), ("next", list (s.next.map toString))]

def graph (g : Graph) : String :=
  record "PatternGraph"
    [("nodes", list (g.states.toList.map state)), ("root", toString Graph.root)]

/-- A compiler is described by the language in which it looks up synonyms. -/
def compiler (language : String) : String :=
  record "PatternCompiler" [("language", quote language)]

/-- A dictionary is described by the kinds of its backends. -/
def dictionary (d : Dictionary) : String :=
  record "Dictionary"
    [("extensions", list (d.extensions.map fun b => quote b.name)),
      ("default", option (d.fallback.map fun b => quote b.name))]

/-- An identity backend is described by its scope. -/
def identity (b : Backend) : String :=
  record "IdentityDictionary" [("prefix", quote b.scope)]

end TokenPatterns.Description
