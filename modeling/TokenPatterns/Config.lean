import TokenPatterns.Error
import TokenPatterns.Letter.Blank
import TokenPatterns.Pattern.Graph

/-! Configurations: the patterns with which a registry starts.

A configuration is sound if neither its language nor the identifier of a pattern is blank. A
pattern may lack a language of its own; then it has that of the configuration. A pattern without
tokens is no fault of a configuration. -/
namespace TokenPatterns

/-- A pattern as a configuration declares it. -/
structure PatternDefinition where
  id : String
  pattern : String
  styles : Option String := none
  language : Option String := none
deriving DecidableEq

structure Config where
  language : String := Graph.defaultLanguage
  patterns : List PatternDefinition := []
deriving DecidableEq

namespace Config

def isBlank (s : String) : Bool := Letter.allBlank s.toList

/-- Why a configuration is not sound. The language is looked at first, then the patterns in
order. -/
def fault? (c : Config) : Option Error :=
  if isBlank c.language then some .blankLanguage
  else (c.patterns.find? fun d => isBlank d.id).map fun d => .blankId d.pattern

/-- A configuration if it is sound. -/
def validate (c : Config) : Except Error Config :=
  match c.fault? with
  | some e => .error e
  | none => .ok c

/-- The language in which the synonyms of a pattern are looked up. -/
def languageOf (c : Config) (d : PatternDefinition) : String := d.language.getD c.language

end Config
end TokenPatterns
