import TokenPatterns.Letter.Quoted

/-! What can go wrong outside matching, and the messages that say so.

Matching itself never fails. An error arises where a file is read, a dictionary is built or asked,
a configuration is loaded, or a pattern is registered. Each constructor is one cause; those with a
`detail` stand for causes that only their message describes. -/
namespace TokenPatterns

inductive Error where
  | fileMissing
  | fileNotText
  | fileUnreadable (detail : String)
  | noTokens (pattern id : String)
  | patternRejected (detail : String)
  | unknownWordClass (code id : String)
  | dictionaryFailed (detail : String)
  | blankLanguage
  | blankId (pattern : String)
  | configRejected (detail : String)
  | malformedJson
  | backendFailed (detail : String)
deriving DecidableEq

namespace Error

/-- The part of the library's work in which an error arises. -/
inductive Area where
  | io
  | pattern
  | dictionary
  | config
  | json
  | backend
deriving DecidableEq

def area : Error → Area
  | fileMissing | fileNotText | fileUnreadable _ => .io
  | noTokens .. | patternRejected _ => .pattern
  | unknownWordClass .. | dictionaryFailed _ => .dictionary
  | blankLanguage | blankId _ | configRejected _ => .config
  | malformedJson => .json
  | backendFailed _ => .backend

/-- What went wrong, without the area. -/
def detail : Error → String
  | fileMissing => "No such file or directory (os error 2)"
  | fileNotText => "stream did not contain valid UTF-8"
  | noTokens pattern id => s!"pattern {quote pattern} ({id}) has no tokens"
  | unknownWordClass code id => s!"Unknown word class '{code}' in synset {id}"
  | blankLanguage => "language must not be empty"
  | blankId pattern => s!"pattern {quote pattern} has an empty id"
  | malformedJson => "malformed JSON"
  | fileUnreadable d | patternRejected d | dictionaryFailed d | configRejected d | backendFailed d => d

/-- How messages name an area. -/
def Area.title : Area → String
  | io => "I/O error"
  | pattern => "Pattern error"
  | dictionary => "Dictionary error"
  | config => "Config error"
  | json => "JSON error"
  | backend => "Anyhow error"

def message (e : Error) : String := e.area.title ++ ": " ++ e.detail

end Error
end TokenPatterns
