import TokenPatterns.Registry
import TokenPatterns.Stored.Record

/-! The stored forms of what matching gives. -/
namespace TokenPatterns

open Stored

namespace Bindings

/-- The bindings of some members; of two members with one name the later one counts. -/
def ofMembers? : List (Json.Text × Json) → Bindings → Option Bindings
  | [], bindings => some bindings
  | (key, v) :: members, bindings => do
    let name ← key
    let text ← (decode? v : Option String)
    ofMembers? members (bindings.insert name text)

end Bindings

instance : Stored Bindings where
  encode b := Json.ofMembers (b.toList.map fun (name, text) => (name, encode text))
  decode?
    | .object members => Bindings.ofMembers? members ∅
    | _ => none

instance : Stored PatternMatch where
  encode m := Json.ofMembers
    [("match_count", encode m.matchCount), ("window", encode m.window),
      ("variables", encode m.captures)]
  decode? v := do
    let fields ← Fields.of? ["match_count", "window", "variables"] v
    let matchCount ← fields.required 0 "match_count"
    let window ← fields.required 1 "window"
    let captures ← fields.required 2 "variables"
    pure {matchCount, window, captures}

instance : Stored MatchResult where
  encode m := Json.ofMembers
    [("template_id", encode m.templateId), ("matched_tokens", encode m.matchedTokens),
      ("match_count", encode m.matchCount), ("variables", encode m.captures),
      ("styles", encode m.styles)]
  decode? v := do
    let fields ← Fields.of?
      ["template_id", "matched_tokens", "match_count", "variables", "styles"] v
    let templateId ← fields.required 0 "template_id"
    let matchedTokens ← fields.required 1 "matched_tokens"
    let matchCount ← fields.required 2 "match_count"
    let captures ← fields.required 3 "variables"
    let styles ← fields.required 4 "styles"
    pure {templateId, matchedTokens, matchCount, captures, styles}

instance : Stored ScanResult where
  encode s := Json.ofMembers
    [("template_ids", encode s.templateIds), ("variables", encode s.captures),
      ("styles", encode s.styles)]
  decode? v := do
    let fields ← Fields.of? ["template_ids", "variables", "styles"] v
    let templateIds ← fields.required 0 "template_ids"
    let captures ← fields.required 1 "variables"
    let styles ← fields.required 2 "styles"
    pure {templateIds, captures, styles}

end TokenPatterns
