import TokenPatterns.Config
import TokenPatterns.Lexicon.Thesaurus
import TokenPatterns.Stored.Record

/-! The stored forms of configurations and of the entries of thesauri.

A configuration may leave out its language and its patterns, a pattern its styles and its
language, and an entry of a thesaurus its language. -/
namespace TokenPatterns

open Stored

instance : Stored PatternDefinition where
  encode d := Json.ofMembers
    [("id", encode d.id), ("pattern", encode d.pattern), ("styles", encode d.styles),
      ("language", encode d.language)]
  decode? v := do
    let fields ← Fields.of? ["id", "pattern", "styles", "language"] v
    let id ← fields.required 0 "id"
    let pattern ← fields.required 1 "pattern"
    let styles ← fields.defaulted 2 "styles" none
    let language ← fields.defaulted 3 "language" none
    pure {id, pattern, styles, language}

instance : Stored Config where
  encode c := Json.ofMembers [("language", encode c.language), ("patterns", encode c.patterns)]
  decode? v := do
    let fields ← Fields.of? ["language", "patterns"] v
    let language ← fields.defaulted 0 "language" Graph.defaultLanguage
    let patterns ← fields.defaulted 1 "patterns" []
    pure {language, patterns}

instance : Stored SynsetEntry where
  encode e := Json.ofMembers
    [("id", encode e.id), ("pos", encode e.pos), ("language", encode e.language),
      ("words", encode e.words)]
  decode? v := do
    let fields ← Fields.of? ["id", "pos", "language", "words"] v
    let id ← fields.required 0 "id"
    let pos ← fields.required 1 "pos"
    let language ← fields.defaulted 2 "language" SynsetEntry.defaultLanguage
    let words ← fields.required 3 "words"
    pure {id, pos, language, words}

end TokenPatterns
