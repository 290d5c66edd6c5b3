import TokenPatterns.Text.Layer
import TokenPatterns.Text.Token

/-! Annotated texts.

A text is a sequence of tokens with at most one layer of taggings per level, and two overlays
that give some positions a lemma or an encoding. An overlay is a list padded with absent entries.
The two grow by different rules: lemmas to the position that is set, encodings to that position
or to the end of the text, whichever is further. -/
namespace TokenPatterns

/-- The layers of a text, at most one for each level. -/
structure Layers where
  pos : Option Layer := none
  chunk : Option Layer := none
  ner : Option Layer := none
  semanticRole : Option Layer := none
  parse : Option Layer := none
  dialogueUnit : Option Layer := none
deriving DecidableEq

namespace Layers

def get? (layers : Layers) : Level → Option Layer
  | .pos => layers.pos
  | .chunk => layers.chunk
  | .ner => layers.ner
  | .semanticRole => layers.semanticRole
  | .parse => layers.parse
  | .dialogueUnit => layers.dialogueUnit

def set (layers : Layers) (level : Level) (layer : Layer) : Layers :=
  match level with
  | .pos => {layers with pos := some layer}
  | .chunk => {layers with chunk := some layer}
  | .ner => {layers with ner := some layer}
  | .semanticRole => {layers with semanticRole := some layer}
  | .parse => {layers with parse := some layer}
  | .dialogueUnit => {layers with dialogueUnit := some layer}

/-- The layers that are there, by ascending level. -/
def toList (layers : Layers) : List (Level × Layer) :=
  Level.all.filterMap fun level => (layers.get? level).map (level, ·)

@[simp] theorem get?_empty (level : Level) : ({} : Layers).get? level = none := by cases level <;> rfl

@[simp] theorem get?_set (layers : Layers) (level other : Level) (layer : Layer) :
    (layers.set level layer).get? other = if level = other then some layer else layers.get? other := by
  cases level <;> cases other <;> rfl

/-- Layers are known by what they hold at each level. -/
theorem ext_get? {a b : Layers} (h : ∀ level, a.get? level = b.get? level) : a = b := by
  cases a
  cases b
  simpa [get?] using And.intro (h .pos) <| And.intro (h .chunk) <| And.intro (h .ner) <|
    And.intro (h .semanticRole) <| And.intro (h .parse) (h .dialogueUnit)

end Layers

/-- Tokens laid over some positions of a text; the other positions have none. -/
abbrev Overlay := Array (Option TextToken)

namespace Overlay

/-- The token laid over a position. -/
def get? (overlay : Overlay) (index : Nat) : Option TextToken := overlay[index]?.join

/-- The overlay with absent entries added up to a size. -/
def pad (overlay : Overlay) (size : Nat) : Overlay :=
  overlay ++ Array.replicate (size - overlay.size) none

/-- Lays a token over a position after padding to a size, if the overlay does not cover it yet. -/
def put (overlay : Overlay) (index size : Nat) (token : TextToken) : Overlay :=
  (if overlay.size ≤ index then overlay.pad size else overlay).setIfInBounds index (some token)

@[simp] theorem size_pad (overlay : Overlay) (size : Nat) :
    Array.size (overlay.pad size) = max overlay.size size := by
  simp [pad]
  omega

theorem getElem?_pad (overlay : Overlay) (size index : Nat) :
    (overlay.pad size)[index]? =
      if index < overlay.size then overlay[index]?
      else if index < size then some none else none := by
  simp only [pad, Array.getElem?_append, Array.getElem?_replicate]
  split
  · rfl
  · congr 1
    simp only [eq_iff_iff]
    omega

/-- Padding lays nothing over any position. -/
@[simp] theorem get?_pad (overlay : Overlay) (size index : Nat) :
    (overlay.pad size).get? index = overlay.get? index := by
  simp only [get?, getElem?_pad]
  split
  · rfl
  · rename_i h
    rw [Array.getElem?_eq_none (Nat.le_of_not_lt h)]
    split <;> rfl

/-- A token that was put is found at its position, and every other position is as it was. -/
theorem get?_put (overlay : Overlay) {index size : Nat} (h : index < size) (token : TextToken)
    (other : Nat) :
    (overlay.put index size token).get? other =
      if index = other then some token else overlay.get? other := by
  have key (o : Overlay) (ho : index < o.size) :
      Overlay.get? (o.setIfInBounds index (some token)) other =
        if index = other then some token else o.get? other := by
    simp only [get?, Array.getElem?_setIfInBounds]
    by_cases he : index = other
    · subst he
      simp [ho]
    · simp [he]
  unfold put
  split
  · rename_i hle
    rw [key _ (by rw [size_pad]; omega), get?_pad]
  · exact key _ (by omega)

theorem size_put (overlay : Overlay) (index size : Nat) (token : TextToken) :
    Array.size (overlay.put index size token) =
      if overlay.size ≤ index then max overlay.size size else overlay.size := by
  unfold put
  split <;> simp

end Overlay

/-- A text with its layers of taggings and its overlays. -/
structure Text where
  tokens : Array TextToken := #[]
  layers : Layers := {}
  lemmas : Overlay := #[]
  encodings : Overlay := #[]
deriving DecidableEq

namespace Text

def size (text : Text) : Nat := text.tokens.size

def isEmpty (text : Text) : Bool := text.tokens.isEmpty

def token? (text : Text) (index : Nat) : Option TextToken := text.tokens[index]?

/-- Appends a token under the next index, whatever index it came with. -/
def add (text : Text) (token : TextToken) : Text :=
  {text with tokens := text.tokens.push {token with index := text.size}}

/-- Appends a token, and says which index it has got. -/
def append (text : Text) (token : TextToken) : Nat × Text :=
  let appended := text.add token
  (appended.size - 1, appended)

/-- The text with one new token for each word. -/
def ofWords (words : List String) : Text :=
  words.foldl (fun text word => text.add (TextToken.ofWord word)) {}

def layer? (text : Text) (level : Level) : Option Layer := text.layers.get? level

/-- Installs a layer at a level in place of the one there, stamping its taggings with it. -/
def setLayer (text : Text) (level : Level) (layer : Layer) : Text :=
  {text with layers := text.layers.set level (layer.stamp level)}

/-- Appends a tagging to the layer of a level; without that layer it is dropped. -/
def annotate (text : Text) (level : Level) (a : Tagging) : Text :=
  match text.layer? level with
  | some layer => {text with layers := text.layers.set level (layer.add {a with level})}
  | none => text

def setLemma (text : Text) (index : Nat) (token : TextToken) : Text :=
  {text with lemmas := text.lemmas.put index (index + 1) token}

def setEncoding (text : Text) (index : Nat) (token : TextToken) : Text :=
  {text with encodings := text.encodings.put index (max index (text.size - 1) + 1) token}

/-- The lemma of a position, which is the token itself where none was set. -/
def lemma? (text : Text) (index : Nat) : Option TextToken :=
  (text.lemmas.get? index).or (text.token? index)

/-- What is shown for the lemma of a position where none was set. -/
def unknownLemma : String := "?"

/-- The text of the lemma that was set at a position. -/
def rawLemma (text : Text) (index : Nat) : String :=
  ((text.lemmas.get? index).map (·.text)).getD unknownLemma

def encoding? (text : Text) (index : Nat) : Option TextToken := text.encodings.get? index

/-- The texts of the tokens. -/
def words (text : Text) : List String := text.tokens.toList.map (·.text)

/-- The texts of the tokens with single spaces between them. -/
def transcription (text : Text) : String := " ".intercalate text.words

/-- The taggings that all layers have at a position, by ascending level. -/
def taggingsAt (text : Text) (index : Nat) : List Tagging :=
  text.layers.toList.flatMap fun (_, layer) => layer.atIndex index

/-- A token is shown with its raw lemma in parentheses and its tags in braces. -/
def shownToken (text : Text) (token : TextToken) : String :=
  let tags := ",".intercalate ((text.taggingsAt token.index).map (·.shown))
  s!"{token.text}({text.rawLemma token.index}) \x7b{tags}\x7d "

/-- A text is shown token by token; behind them, after an arrow, the encodings, if it has an
overlay of them. -/
def shown (text : Text) : String :=
  let encodings :=
    if text.encodings.isEmpty then ""
    else " ->" ++ String.join (text.encodings.toList.reduceOption.map fun e => " " ++ e.text)
  String.join (text.tokens.toList.map text.shownToken) ++ encodings

theorem token?_add (text : Text) (token : TextToken) (index : Nat) :
    (text.add token).token? index =
      if index = text.size then some {token with index := text.size} else text.token? index := by
  rw [token?, add, Array.getElem?_push]
  rfl

theorem layer?_setLayer (text : Text) (level other : Level) (layer : Layer) :
    (text.setLayer level layer).layer? other =
      if level = other then some (layer.stamp level) else text.layer? other :=
  Layers.get?_set ..

theorem layer?_annotate (text : Text) (level other : Level) (a : Tagging) :
    (text.annotate level a).layer? other =
      if level = other then (text.layer? other).map (·.add {a with level}) else text.layer? other := by
  unfold annotate
  split
  · rename_i layer h
    rw [layer?, Layers.get?_set]
    split
    · rename_i he
      rw [← he, h]
      rfl
    · rfl
  · rename_i h
    split
    · rename_i he
      rw [← he, h]
      rfl
    · rfl

@[simp] theorem size_add (text : Text) (token : TextToken) : (text.add token).size = text.size + 1 := by
  simp [add, size]

@[simp] theorem length_words (text : Text) : text.words.length = text.size := by
  simp [words, size]

theorem getElem?_words (text : Text) (index : Nat) :
    text.words[index]? = (text.token? index).map (·.text) := by
  simp [words, token?]

end Text
end TokenPatterns
