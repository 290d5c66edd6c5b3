import TokenPatterns.Proofs.Text.Links
import TokenPatterns.Text.Basic

/-! How a text changes.

Tokens are appended to a text, layers are installed, taggings are added to them, and lemmas and
encodings are laid over positions; nothing is ever taken away. So the tokens of a text are those
that were added, each under its place (`Text.token?_after`), whatever index it came with. A layer
that was built somewhere, or copied from one that was, stays chained wherever it is installed, and
its taggings have the level at which it stands (`Text.Layered.after`). A change of one layer leaves
the others as they are (`Text.layer?_apply`). -/
namespace TokenPatterns

/-! ### Layers that were built -/

namespace Layer

/-- The layers that there can be: taggings added one by one to an empty layer, or to a copy of a
layer that a text has moved to one of its levels. -/
inductive Built : Layer → Prop
  | empty : Built empty
  | add {layer : Layer} (a : Tagging) : Built layer → Built (layer.add a)
  | stamp {layer : Layer} (level : Level) : Built layer → Built (layer.stamp level)

theorem get?_stamp (level : Level) (layer : Layer) (i : Nat) :
    (layer.stamp level).get? i = (layer.get? i).map fun a => {a with level} :=
  Array.getElem?_map

theorem Chained.stamp {layer : Layer} (h : layer.Chained) (level : Level) :
    (layer.stamp level).Chained := by
  intro i b hb
  rw [get?_stamp] at hb
  obtain ⟨a, ha, rfl⟩ := Option.map_eq_some_iff.mp hb
  rw [size_stamp]
  exact h i a ha

theorem Built.chained {layer : Layer} (h : layer.Built) : layer.Chained := by
  induction h with
  | empty => exact chained_empty
  | add a _ ih => exact ih.add a
  | stamp level _ ih => exact ih.stamp level

/-- Whether all taggings of a layer are of one level. -/
def OfLevel (layer : Layer) (level : Level) : Prop := ∀ a ∈ layer.toList, a.level = level

theorem ofLevel_iff {layer : Layer} {level : Level} :
    layer.OfLevel level ↔ ∀ c ∈ layer.contents, c.1 = level := by
  rw [contents, List.forall_mem_map]
  rfl

theorem ofLevel_stamp (level : Level) (layer : Layer) : (layer.stamp level).OfLevel level := by
  intro a ha
  rw [toList, stamp, Array.toList_map, List.mem_map] at ha
  obtain ⟨b, _, rfl⟩ := ha
  rfl

theorem OfLevel.add {layer : Layer} {level : Level} (h : layer.OfLevel level) {a : Tagging}
    (ha : a.level = level) : (layer.add a).OfLevel level := by
  rw [ofLevel_iff] at h ⊢
  rw [contents_add]
  intro c hc
  rcases List.mem_append.mp hc with hc | hc
  · exact h c hc
  · rw [List.mem_singleton.mp hc]
    exact ha

end Layer

namespace Text

/-! ### Changes -/

/-- What can be done to a text. -/
inductive Change where
  | add (token : TextToken)
  | setLayer (level : Level) (layer : Layer)
  | annotate (level : Level) (a : Tagging)
  | setLemma (index : Nat) (token : TextToken)
  | setEncoding (index : Nat) (token : TextToken)

namespace Change

/-- The text after a change. -/
def apply (text : Text) : Change → Text
  | add token => (text.append token).2
  | setLayer level layer => text.setLayer level layer
  | annotate level a => text.annotate level a
  | setLemma index token => text.setLemma index token
  | setEncoding index token => text.setEncoding index token

/-- The token that a change appends. -/
def token? : Change → Option TextToken
  | add token => some token
  | _ => none

/-- The level of the layer that a change is about. -/
def level? : Change → Option Level
  | setLayer level _ | annotate level _ => some level
  | _ => none

/-- The position that a change gives a lemma, with the lemma. -/
def lemma? : Change → Option (Nat × TextToken)
  | setLemma index token => some (index, token)
  | _ => none

/-- The position that a change gives an encoding, with the encoding. -/
def encoding? : Change → Option (Nat × TextToken)
  | setEncoding index token => some (index, token)
  | _ => none

/-- Whether a layer that a change installs was built. -/
def Sound : Change → Prop
  | setLayer _ layer => layer.Built
  | _ => True

end Change

/-- The text after a sequence of changes, from an empty one on. -/
def after (changes : List Change) : Text := changes.foldl Change.apply {}

theorem after_concat (changes : List Change) (change : Change) :
    after (changes ++ [change]) = change.apply (after changes) :=
  List.foldl_append ..

/-- What a change is asked for comes behind what the changes before it gave. -/
theorem filterMap_concat {α : Type} (f : Change → Option α) (changes : List Change) (change : Change) :
    (changes ++ [change]).filterMap f = changes.filterMap f ++ (f change).toList := by
  rw [List.filterMap_append, List.filterMap_cons, List.filterMap_nil]
  cases f change <;> rfl

/-! ### Tokens -/

theorem getElem?_tokens (text : Text) (i : Nat) : text.tokens.toList[i]? = text.token? i :=
  Array.getElem?_toList

/-- A tagging that is added changes nothing but the layers. -/
theorem exists_annotate (text : Text) (level : Level) (a : Tagging) :
    ∃ layers, text.annotate level a = {text with layers} := by
  unfold annotate
  split
  · exact ⟨_, rfl⟩
  · exact ⟨text.layers, rfl⟩

/-- A change adds at most one token, with the next index, and takes none away. -/
theorem tokens_apply (text : Text) (change : Change) :
    (change.apply text).tokens.toList =
      text.tokens.toList ++ (change.token?.map fun token => {token with index := text.size}).toList := by
  cases change with
  | add token => exact Array.toList_push
  | annotate level a =>
    obtain ⟨layers, hannotate⟩ := exists_annotate text level a
    rw [Change.apply, hannotate]
    exact (List.append_nil _).symm
  | setLayer | setLemma | setEncoding => exact (List.append_nil _).symm

theorem token?_apply {text : Text} {i : Nat} {token : TextToken} (h : text.token? i = some token)
    (change : Change) : (change.apply text).token? i = some token := by
  rw [← getElem?_tokens, tokens_apply, List.getElem?_append_left, getElem?_tokens, h]
  exact (Array.getElem?_eq_some_iff.mp h).1

/-- The tokens that a sequence of changes adds, as they were given. -/
def added (changes : List Change) : List TextToken := changes.filterMap Change.token?

/-- The tokens of a text are those that were added, each with its place for its index. -/
theorem tokens_after (changes : List Change) :
    (after changes).tokens.toList = (added changes).mapIdx fun i token => {token with index := i} := by
  induction changes using List.reverseRecOn with
  | nil => rfl
  | append_singleton changes change ih =>
    have hsize : (after changes).size = (added changes).length := by
      rw [size, ← Array.length_toList, ih, List.length_mapIdx]
    have hadded : added (changes ++ [change]) = added changes ++ change.token?.toList :=
      filterMap_concat ..
    rw [after_concat, tokens_apply, ih, hadded, List.mapIdx_append, hsize]
    cases change.token? <;> simp

theorem token?_after (changes : List Change) (i : Nat) :
    (after changes).token? i = (added changes)[i]?.map fun token => {token with index := i} := by
  rw [← getElem?_tokens, tokens_after, List.getElem?_mapIdx]

/-! ### Layers -/

theorem layer?_apply {level : Level} {change : Change} (h : change.level? ≠ some level) (text : Text) :
    (change.apply text).layer? level = text.layer? level := by
  cases change with
  | setLayer other layer =>
    rw [Change.apply, layer?_setLayer, if_neg fun heq => h (congrArg some heq)]
  | annotate other a =>
    rw [Change.apply, layer?_annotate, if_neg fun heq => h (congrArg some heq)]
  | add | setLemma | setEncoding => rfl

/-- Without a layer to add it to, a tagging is dropped. -/
theorem annotate_of_none {text : Text} {level : Level} (h : text.layer? level = none) (a : Tagging) :
    text.annotate level a = text := by
  rw [annotate, h]

theorem layer?_annotate_of_some {text : Text} {level : Level} {layer : Layer}
    (h : text.layer? level = some layer) (a : Tagging) :
    (text.annotate level a).layer? level = some (layer.add {a with level}) := by
  rw [layer?_annotate, if_pos rfl, h]
  rfl

/-- Whether the layers of a text were built, and their taggings are of the levels of the layers. -/
def Layered (text : Text) : Prop :=
  ∀ level layer, text.layer? level = some layer → layer.Built ∧ layer.OfLevel level

theorem layered_empty : Layered {} := by
  intro level layer h
  rw [layer?, Layers.get?_empty] at h
  cases h

theorem Layered.apply {text : Text} (h : text.Layered) {change : Change} (hchange : change.Sound) :
    (change.apply text).Layered := by
  intro level layer hlayer
  by_cases hlevel : change.level? = some level
  · cases change with
    | setLayer other given =>
      obtain rfl : other = level := Option.some.inj hlevel
      rw [Change.apply, layer?_setLayer, if_pos rfl] at hlayer
      cases hlayer
      exact ⟨.stamp other hchange, Layer.ofLevel_stamp other given⟩
    | annotate other a =>
      obtain rfl : other = level := Option.some.inj hlevel
      rw [Change.apply, layer?_annotate, if_pos rfl] at hlayer
      obtain ⟨old, hold, rfl⟩ := Option.map_eq_some_iff.mp hlayer
      obtain ⟨hbuilt, hof⟩ := h other old hold
      exact ⟨hbuilt.add _, hof.add rfl⟩
    | add | setLemma | setEncoding => cases hlevel
  · rw [layer?_apply hlevel] at hlayer
    exact h level layer hlayer

theorem Layered.after {changes : List Change} (h : ∀ change ∈ changes, change.Sound) :
    (after changes).Layered := by
  induction changes using List.reverseRecOn with
  | nil => exact layered_empty
  | append_singleton changes change ih =>
    rw [after_concat]
    have hbefore := ih fun c hc => h c (List.mem_append_left _ hc)
    exact hbefore.apply (h change (List.mem_append_right _ List.mem_cons_self))

/-- However a text was changed, it is in order. Its tokens have their places for their indices, and
the next token gets their number and leaves them alone. The taggings of each layer are of its level
and linked to their neighbours, and the layer may be copied to another level again. A tagging goes to
the end of the layer of its level, if there is one, and else nowhere. No change touches a layer of a
level that it is not about, and none takes a token away. -/
theorem orderly_after (changes : List Change) (h : ∀ change ∈ changes, change.Sound) :
    let text := after changes
    (∀ i token, text.token? i = some token → token.index = i) ∧
    (∀ token, (text.append token).1 = text.size ∧
      (text.append token).2.token? text.size = some {token with index := text.size} ∧
      ∀ i < text.size, (text.append token).2.token? i = text.token? i) ∧
    (∀ level layer, text.layer? level = some layer →
      (∀ a ∈ layer.toList, a.level = level) ∧ layer.Chained ∧ layer.Built) ∧
    (∀ level a, text.layer? level = none → text.annotate level a = text) ∧
    (∀ level layer a, text.layer? level = some layer →
      ∃ more, (text.annotate level a).layer? level = some more ∧ more.Chained ∧
        more.contents = layer.contents ++ [(level, a.textIndex, a.label)]) ∧
    ∀ change : Change,
      (∀ level, change.level? ≠ some level →
        (change.apply text).layer? level = text.layer? level) ∧
      ∀ i token, text.token? i = some token → (change.apply text).token? i = some token := by
  intro text
  have hlayered : text.Layered := .after h
  refine ⟨fun i token htoken => ?_, fun token => ⟨?_, ?_, fun i hi => ?_⟩, fun level layer hlayer => ?_,
    fun level a hnone => annotate_of_none hnone a, fun level layer a hlayer => ?_,
    fun change => ⟨fun level hlevel => layer?_apply hlevel text, fun i token htoken =>
      token?_apply htoken change⟩⟩
  · rw [token?_after] at htoken
    obtain ⟨given, _, rfl⟩ := Option.map_eq_some_iff.mp htoken
    rfl
  · rw [append, size_add, Nat.add_sub_cancel]
  · rw [append, token?_add, if_pos rfl]
  · rw [append, token?_add, if_neg (Nat.ne_of_lt hi)]
  · obtain ⟨hbuilt, hof⟩ := hlayered level layer hlayer
    exact ⟨hof, hbuilt.chained, hbuilt⟩
  · exact ⟨_, layer?_annotate_of_some hlayer a, (hlayered level layer hlayer).1.chained.add _,
      Layer.contents_add ..⟩

/-- A token with the index of another text, and a layer that is installed at one level and copied from
there to another, where a tagging is added; at a third level there is none to add it to. -/
theorem orderly_after_copied :
    let layer := (Layer.empty.add (.ofCode 0 12)).add ⟨.chunk, 1, 27, some 7, some 9⟩
    let changes : List Change := [.add (.ofWord "the"), .add ⟨"dog", 5⟩, .setLayer .pos layer,
      .setLayer .ner (layer.stamp .pos), .annotate .ner (.ofCode 1 9), .annotate .parse (.ofCode 0 1)]
    let text := after changes
    (∀ change ∈ changes, change.Sound) ∧
    (text.token? 1 = some ⟨"dog", 1⟩ ∧ (text.append ⟨"cat", 5⟩).1 = 2) ∧
    (∃ found, text.layer? .ner = some found ∧ (∀ a ∈ found.toList, a.level = .ner) ∧ found.Chained ∧
      found.contents = [(.ner, 0, 12), (.ner, 1, 27), (.ner, 1, 9)]) ∧
    (text.layer? .parse = none ∧ text.annotate .parse (.ofCode 0 1) = text) ∧
    (text.setLayer .ner .empty).layer? .pos = text.layer? .pos := by
  intro layer changes text
  have hlayer : layer.Built := .add _ (.add _ .empty)
  have hsound : ∀ change ∈ changes, change.Sound := by
    simp only [changes, List.forall_mem_cons]
    exact ⟨trivial, trivial, hlayer, hlayer.stamp .pos, trivial, trivial, nofun⟩
  obtain ⟨_, happend, hlayers, hnone, _, hother⟩ := orderly_after changes hsound
  have hparse : text.layer? .parse = none := by decide +kernel
  obtain ⟨found, hfound⟩ : ∃ found, text.layer? .ner = some found := ⟨_, rfl⟩
  obtain ⟨hlevel, hchained, _⟩ := hlayers .ner found hfound
  refine ⟨hsound, ⟨by decide +kernel, ?_⟩, ⟨found, hfound, hlevel, hchained, ?_⟩,
    ⟨hparse, hnone .parse (.ofCode 0 1) hparse⟩, ?_⟩
  · rw [(happend ⟨"cat", 5⟩).1]
    decide +kernel
  · cases hfound
    decide +kernel
  · exact (hother (.setLayer .ner .empty)).1 .pos (by decide)

end Text
end TokenPatterns
