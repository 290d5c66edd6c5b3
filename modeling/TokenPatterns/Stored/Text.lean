import TokenPatterns.Stored.Record
import TokenPatterns.Text.Basic
import TokenPatterns.WordClass

/-! The stored forms of texts.

A text is stored with everything it holds: tokens with their positions, layers under the long names
of their levels with the links of their taggings, and both overlays with their absent entries.
What is read back is taken as it is stored. -/
namespace TokenPatterns

open Stored

instance : Stored Level where
  encode level := Json.ofString level.longName
  decode? v := variant? Level.ofLongName? v

instance : Stored WordClass where
  encode cls := Json.ofString cls.longName
  decode? v := variant? WordClass.ofLongName? v

instance : Stored TextToken where
  encode t := Json.ofMembers [("text", encode t.text), ("index", encode t.index)]
  decode? v := do
    let fields ← Fields.of? ["text", "index"] v
    let text ← fields.required 0 "text"
    let index ← fields.required 1 "index"
    pure {text, index}

instance : Stored Tagging where
  encode a := Json.ofMembers
    [("level", encode a.level), ("text_index", encode a.textIndex), ("label", encode a.label),
      ("previous", encode a.previous), ("next", encode a.next)]
  decode? v := do
    let fields ← Fields.of? ["level", "text_index", "label", "previous", "next"] v
    let level ← fields.required 0 "level"
    let textIndex ← fields.required 1 "text_index"
    let label ← fields.required 2 "label"
    let previous ← fields.optional 3 "previous"
    let next ← fields.optional 4 "next"
    pure {level, textIndex, label, previous, next}

instance : Stored Layer where
  encode layer := Json.ofMembers [("tokens", encode layer.taggings)]
  decode? v := do
    let fields ← Fields.of? ["tokens"] v
    let taggings ← fields.required 0 "tokens"
    pure {taggings}

namespace Layers

/-- The layers stored under the names of their levels; of two under one name the later one
counts. -/
def ofMembers? : List (Json.Text × Json) → Layers → Option Layers
  | [], layers => some layers
  | (key, v) :: members, layers => do
    let name ← key
    let level ← Level.ofLongName? name
    let layer ← decode? v
    ofMembers? members (layers.set level layer)

end Layers

instance : Stored Layers where
  encode layers := Json.ofMembers (layers.toList.map fun (level, layer) =>
    (level.longName, encode layer))
  decode?
    | .object members => Layers.ofMembers? members {}
    | _ => none

instance : Stored Text where
  encode t := Json.ofMembers
    [("tokens", encode t.tokens), ("annotations", encode t.layers), ("lemmas", encode t.lemmas),
      ("encodings", encode t.encodings)]
  decode? v := do
    let fields ← Fields.of? ["tokens", "annotations", "lemmas", "encodings"] v
    let tokens ← fields.required 0 "tokens"
    let layers ← fields.required 1 "annotations"
    let lemmas ← fields.required 2 "lemmas"
    let encodings ← fields.required 3 "encodings"
    pure {tokens, layers, lemmas, encodings}

end TokenPatterns
