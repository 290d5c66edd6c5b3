import TokenPatterns.Config
import TokenPatterns.Matcher

/-! Registries: the matchers that a text is matched against.

A registry keeps its matchers in the order of their registration. It also keeps every style key
that a registered matcher ever had, even after the matcher is removed; a key that the winner of a
match does not set has the wildcard as its value. -/
namespace TokenPatterns

structure Registry where
  matchers : List Matcher := []
  defaultStyles : Bindings := ∅

/-- The best match of a registry at one position. -/
structure MatchResult where
  templateId : String
  /-- The tokens that the match covers, those passed over included. -/
  matchedTokens : Nat
  matchCount : Nat
  captures : Bindings
  styles : Bindings
deriving DecidableEq

/-- What a scan of a text finds. -/
structure ScanResult where
  templateIds : List String := []
  captures : Bindings := ∅
  styles : Bindings := ∅
deriving DecidableEq

namespace ScanResult

def isEmpty (s : ScanResult) : Bool := s.templateIds.isEmpty

/-- What some matches add up to: the variables and styles of later ones win. -/
def ofMatches (ms : List MatchResult) : ScanResult :=
  { templateIds := ms.map (·.templateId)
    captures := ms.foldl (fun b m => b.overlay m.captures) ∅
    styles := ms.foldl (fun b m => b.overlay m.styles) ∅ }

end ScanResult

namespace Registry

def size (r : Registry) : Nat := r.matchers.length

def isEmpty (r : Registry) : Bool := r.matchers.isEmpty

/-- Every key of some styles with the wildcard as its value. -/
def wildcards (styles : Bindings) : Bindings := styles.map fun _ _ => Style.wildcard

/-- Registers a matcher unless its pattern has no tokens. -/
def add (r : Registry) (m : Matcher) : Except Error Registry :=
  if m.isValid then
    .ok ⟨r.matchers ++ [m], (wildcards m.styles).overlay r.defaultStyles⟩
  else .error (.noTokens m.pattern m.id)

/-- The registry with a matcher, or as it was if the pattern has no tokens. -/
def addIfValid (r : Registry) (m : Matcher) : Registry :=
  match r.add m with
  | .ok r => r
  | .error _ => r

/-- Removes every matcher with an identifier. -/
def remove (r : Registry) (id : String) : Registry :=
  {r with matchers := r.matchers.filter (·.id != id)}

/-- The number of matchers with an identifier. -/
def count (r : Registry) (id : String) : Nat := r.matchers.countP (·.id == id)

/-- Registers the patterns of a configuration, in order. -/
def addDefinitions (c : Config) : List PatternDefinition → Registry → Inquiry Registry
  | [], r => pure r
  | d :: ds, r => do
    let m ← Matcher.compile d.id d.pattern d.styles (c.languageOf d)
    addDefinitions c ds (r.addIfValid m)

/-- The registry of a configuration, if that is sound. -/
def ofConfig (c : Config) : Except Error (Inquiry Registry) :=
  match c.fault? with
  | some e => .error e
  | none => .ok (addDefinitions c c.patterns {})

/-- Whether a match is better than another one: it has more matched tokens, or as many in a
smaller window. -/
def better (found best : PatternMatch) : Bool :=
  best.matchCount < found.matchCount ||
    (found.matchCount == best.matchCount && found.window < best.window)

/-- The better of the best match so far and the match of one more matcher. A match without matched
tokens does not count, and of two equally good matches the earlier one stays. -/
def prefer (best : Option (Matcher × PatternMatch)) (m : Matcher) (found : PatternMatch) :
    Option (Matcher × PatternMatch) :=
  if found.matchCount = 0 then best
  else match best with
    | none => some (m, found)
    | some (_, old) => if better found old then some (m, found) else best

/-- The best match of some matchers, given the best match before them. -/
def bestOf (text : Text) (start stop : Nat) :
    List Matcher → Option (Matcher × PatternMatch) → Inquiry (Option (Matcher × PatternMatch))
  | [], best => pure best
  | m :: ms, best => do
    let found ← m.matchAt text start stop
    bestOf text start stop ms (prefer best m found)

theorem run_bestOf (lexicon : Lexicon) (text : Text) (start stop : Nat) (ms : List Matcher)
    (best : Option (Matcher × PatternMatch)) :
    (bestOf text start stop ms best).run lexicon =
      ms.foldl (fun best m => prefer best m ((m.matchAt text start stop).run lexicon)) best := by
  induction ms generalizing best with
  | nil => rfl
  | cons m ms ih =>
    rw [bestOf, Inquiry.run_bind, ih]
    rfl

/-- What a match of a matcher is reported as. -/
def report (r : Registry) (m : Matcher) (found : PatternMatch) : MatchResult :=
  { templateId := m.id
    matchedTokens := found.window
    matchCount := found.matchCount
    captures := found.captures
    styles := r.defaultStyles.overlay m.styles }

/-- The best match of the tokens of a range, beginning with its first one. -/
def bestMatch (r : Registry) (text : Text) (start stop : Nat) : Inquiry (Option MatchResult) := do
  let best ← bestOf text start stop r.matchers none
  pure (best.map fun (m, found) => r.report m found)

/-- The matches of a scan over the last tokens of a text, of which the first ones are covered by a
match already. A match covers one token at least. -/
def scanFrom (r : Registry) (text : Text) : (remaining covered : Nat) → Inquiry (List MatchResult)
  | 0, _ => pure []
  | remaining + 1, covered + 1 => r.scanFrom text remaining covered
  | remaining + 1, 0 => do
    match ← r.bestMatch text (text.size - (remaining + 1)) text.size with
    | none => r.scanFrom text remaining 0
    | some found => do
      let rest ← r.scanFrom text remaining (found.matchedTokens - 1)
      pure (found :: rest)

/-- Scans a text from left to right: behind a match the scan goes on after its tokens, elsewhere at
the next token. -/
def scan (r : Registry) (text : Text) : Inquiry ScanResult :=
  ScanResult.ofMatches <$> r.scanFrom text text.size 0

end Registry
end TokenPatterns
