import TokenPatterns.Json.Reader
import TokenPatterns.Stored.Config

/-! Loading from documents and files.

A file may be missing, or hold bytes that are no text. A document is loaded by reading it as JSON
and decoding the value; both kinds of failure are one error. Only a configuration that is sound is
loaded. -/
namespace TokenPatterns

/-- What there is under the name of a file. -/
inductive File where
  | missing
  | bytes (content : ByteArray)

/-- The text of a file. -/
def File.read : File → Except Error String
  | missing => .error .fileMissing
  | bytes content =>
    match String.fromUTF8? content with
    | some text => .ok text
    | none => .error .fileNotText

/-- The value of a document. -/
def Json.read (document : String) : Except Error Json :=
  match parse? document with
  | some v => .ok v
  | none => .error .malformedJson

namespace Stored
variable {α : Type} [Stored α]

/-- What a JSON value stores. -/
def load (v : Json) : Except Error α :=
  match decode? v with
  | some a => .ok a
  | none => .error .malformedJson

/-- What a document stores. -/
def read (document : String) : Except Error α := do load (← Json.read document)

@[simp] theorem load_eq_ok_iff {v : Json} {a : α} : load v = .ok a ↔ decode? v = some a := by
  unfold load
  split <;> simp_all

end Stored

namespace Config

/-- The configuration that a JSON value stores, if it is sound. -/
def ofJson (v : Json) : Except Error Config := do
  let config : Config ← Stored.load v
  config.validate

def ofDocument (document : String) : Except Error Config := do ofJson (← Json.read document)

def ofFile (file : File) : Except Error Config := do ofDocument (← file.read)

end Config

namespace Thesaurus

/-- The thesaurus of the entries that a document lists. -/
def ofDocument (scope document : String) : Except Error Thesaurus := do
  ofEntries scope (← Stored.read document)

def ofFile (scope : String) (file : File) : Except Error Thesaurus := do
  ofDocument scope (← file.read)

end Thesaurus
end TokenPatterns
