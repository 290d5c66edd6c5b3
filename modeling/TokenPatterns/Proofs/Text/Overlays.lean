import TokenPatterns.Proofs.Text.Changes

/-! What lies over a text.

Lemmas and encodings are laid over positions of a text, and also over positions that it does not have
yet. An overlay records what was put into it: at each position the token that was put there last, and
nothing where none was (`Overlay.Records.put`). So lemmas and encodings are found by what was set, in
whatever order tokens, layers and the two overlays were changed (`Text.records_after`). The lemmas
reach as far as the last position that has one (`Text.size_lemmas_after`); the encodings reach further
where the text did when they last had to grow. -/
namespace TokenPatterns

/-- The token that was written last at a position. -/
def lastAt (writes : List (Nat × TextToken)) (index : Nat) : Option TextToken :=
  writes.reverse.lookup index

theorem lastAt_concat (writes : List (Nat × TextToken)) (index : Nat) (token : TextToken) (i : Nat) :
    lastAt (writes ++ [(index, token)]) i = if index = i then some token else lastAt writes i := by
  rw [lastAt, List.reverse_concat, List.lookup_cons]
  by_cases h : index = i
  · rw [if_pos h, h, beq_self_eq_true]
  · rw [if_neg h, beq_false_of_ne (Ne.symm h)]
    rfl

namespace Overlay

/-- Whether an overlay holds at each position what was written there last, and has room for all that
was written. -/
structure Records (overlay : Overlay) (writes : List (Nat × TextToken)) : Prop where
  found : ∀ i, overlay.get? i = lastAt writes i
  covers : ∀ write ∈ writes, write.1 < overlay.size

theorem records_empty : Records #[] [] where
  found _ := rfl
  covers _ h := nomatch h

variable {overlay : Overlay} {writes : List (Nat × TextToken)} {index size : Nat}

theorem size_le_put (overlay : Overlay) (index size : Nat) (token : TextToken) :
    overlay.size ≤ Array.size (overlay.put index size token) := by
  rw [size_put]
  split
  · exact Nat.le_max_left ..
  · exact Nat.le_refl _

/-- An overlay that grows has just the size to which it is padded. -/
theorem size_put_of_lt {token : TextToken}
    (h : overlay.size < Array.size (overlay.put index size token)) :
    Array.size (overlay.put index size token) = size := by
  by_cases hindex : overlay.size ≤ index
  · rw [size_put, if_pos hindex] at h ⊢
    omega
  · rw [size_put, if_neg hindex] at h
    exact absurd h (Nat.lt_irrefl _)

theorem lt_size_put (overlay : Overlay) (h : index < size) (token : TextToken) :
    index < Array.size (overlay.put index size token) := by
  rw [size_put]
  split
  · exact Nat.lt_of_lt_of_le h (Nat.le_max_right ..)
  · next hcovered => exact Nat.lt_of_not_le hcovered

/-- A token that is put into an overlay is the last one at its position and changes no other. -/
theorem Records.put (h : overlay.Records writes) (hindex : index < size) (token : TextToken) :
    (overlay.put index size token).Records (writes ++ [(index, token)]) where
  found i := by rw [get?_put overlay hindex, lastAt_concat, h.found]
  covers write hwrite := by
    rcases List.mem_append.mp hwrite with hold | hnew
    · exact Nat.lt_of_lt_of_le (h.covers write hold) (size_le_put ..)
    · rw [List.mem_singleton.mp hnew]
      exact lt_size_put overlay hindex token

end Overlay

namespace Text

/-- The lemmas that a sequence of changes sets, with their positions. -/
def lemmasSet (changes : List Change) : List (Nat × TextToken) := changes.filterMap Change.lemma?

/-- The encodings that a sequence of changes sets, with their positions. -/
def encodingsSet (changes : List Change) : List (Nat × TextToken) := changes.filterMap Change.encoding?

/-! ### What one change does -/

theorem lemmas_apply (text : Text) (change : Change) :
    (change.apply text).lemmas =
      (change.lemma?.elim text.lemmas fun (index, token) => text.lemmas.put index (index + 1) token) := by
  cases change with
  | annotate level a =>
    obtain ⟨layers, hannotate⟩ := exists_annotate text level a
    rw [Change.apply, hannotate]
    rfl
  | add | setLayer | setLemma | setEncoding => rfl

theorem encodings_apply (text : Text) (change : Change) :
    (change.apply text).encodings =
      (change.encoding?.elim text.encodings fun (index, token) =>
        text.encodings.put index (max index (text.size - 1) + 1) token) := by
  cases change with
  | annotate level a =>
    obtain ⟨layers, hannotate⟩ := exists_annotate text level a
    rw [Change.apply, hannotate]
    rfl
  | add | setLayer | setLemma | setEncoding => rfl

/-! ### What a sequence of changes does -/

theorem records_after (changes : List Change) :
    (after changes).lemmas.Records (lemmasSet changes) ∧
      (after changes).encodings.Records (encodingsSet changes) := by
  induction changes using List.reverseRecOn with
  | nil => exact ⟨Overlay.records_empty, Overlay.records_empty⟩
  | append_singleton changes change ih =>
    obtain ⟨hlemmas, hencodings⟩ := ih
    rw [after_concat, lemmas_apply, encodings_apply, lemmasSet, encodingsSet, filterMap_concat,
      filterMap_concat]
    constructor
    · cases change.lemma? with
      | none => exact (List.append_nil _).symm ▸ hlemmas
      | some write => exact hlemmas.put (Nat.lt_succ_self _) write.2
    · cases change.encoding? with
      | none => exact (List.append_nil _).symm ▸ hencodings
      | some write => exact hencodings.put (Nat.lt_succ_of_le (Nat.le_max_left ..)) write.2

/-- The lemmas end right behind a position that has one, or there are none. -/
theorem lemmas_tight (changes : List Change) :
    (after changes).lemmas.size = 0 ∨
      ∃ write ∈ lemmasSet changes, (after changes).lemmas.size = write.1 + 1 := by
  induction changes using List.reverseRecOn with
  | nil => exact .inl rfl
  | append_singleton changes change ih =>
    rw [after_concat, lemmas_apply, lemmasSet, filterMap_concat]
    cases change.lemma? with
    | none => exact (List.append_nil _).symm ▸ ih
    | some write =>
      obtain ⟨index, token⟩ := write
      right
      dsimp only [Option.elim_some, Option.toList_some]
      by_cases hgrow : (after changes).lemmas.size ≤ index
      · refine ⟨(index, token), List.mem_append_right _ List.mem_cons_self, ?_⟩
        rw [Overlay.size_put, if_pos hgrow]
        omega
      · rw [Overlay.size_put, if_neg hgrow]
        obtain hnone | ⟨write, hwrite, hsize⟩ := ih
        · omega
        · exact ⟨write, List.mem_append_left _ hwrite, hsize⟩

theorem size_lemmas_after (changes : List Change) :
    (after changes).lemmas.size = (((lemmasSet changes).map (·.1)).max?.map (· + 1)).getD 0 := by
  have hcovers := (records_after changes).1.covers
  have htight := lemmas_tight changes
  cases hmax : ((lemmasSet changes).map (·.1)).max? with
  | none =>
    rw [List.max?_eq_none_iff, List.map_eq_nil_iff] at hmax
    rw [hmax] at htight
    obtain hnone | ⟨write, hwrite, _⟩ := htight
    · exact hnone
    · cases hwrite
  | some largest =>
    obtain ⟨hmem, hlargest⟩ := List.max?_eq_some_iff.mp hmax
    obtain ⟨write, hwrite, rfl⟩ := List.mem_map.mp hmem
    obtain hnone | ⟨other, hother, hsize⟩ := htight
    · exact absurd (hcovers write hwrite) (by omega)
    · have hle : other.1 ≤ write.1 := hlargest _ (List.mem_map_of_mem hother)
      have hlt := hcovers write hwrite
      show _ = write.1 + 1
      omega

/-- Lemmas and encodings are found as in maps, however they were set and however the text grew
meanwhile. The lemma of a position is the last one set there, or else the token of the text; its text
is shown as a question mark where no lemma was set, even if there is a token. An encoding is the last
one set at its position. Setting one changes no other position, not the other overlay and no token.
The lemmas reach as far as the last position that has one. The encodings reach to every position that
has one, never less far than before, and if they have to grow, at least to the end of the text. -/
theorem overlays_after (changes : List Change) :
    let text := after changes
    let lemmas := lemmasSet changes
    let encodings := encodingsSet changes
    (∀ i, text.token? i = (added changes)[i]?.map fun token => {token with index := i}) ∧
    (∀ i, text.lemma? i = (lastAt lemmas i).or (text.token? i)) ∧
    (∀ i, text.rawLemma i = ((lastAt lemmas i).map (·.text)).getD "?") ∧
    (∀ i, text.encoding? i = lastAt encodings i) ∧
    (∀ index token,
      (∀ i, i ≠ index → (text.setLemma index token).lemmas.get? i = text.lemmas.get? i ∧
        (text.setEncoding index token).encodings.get? i = text.encodings.get? i) ∧
      (text.setLemma index token).encodings = text.encodings ∧
      (text.setEncoding index token).lemmas = text.lemmas ∧
      (text.setLemma index token).tokens = text.tokens ∧
      (text.setEncoding index token).tokens = text.tokens) ∧
    text.lemmas.size = ((lemmas.map (·.1)).max?.map (· + 1)).getD 0 ∧
    (∀ write ∈ encodings, write.1 < text.encodings.size) ∧
    ∀ change : Change,
      text.encodings.size ≤ (change.apply text).encodings.size ∧
      (text.encodings.size < (change.apply text).encodings.size →
        text.size ≤ (change.apply text).encodings.size) := by
  intro text lemmas encodings
  obtain ⟨hlemmas, hencodings⟩ := records_after changes
  refine ⟨token?_after changes, fun i => ?_, fun i => ?_, hencodings.found, fun index token =>
    ⟨fun i hi => ⟨?_, ?_⟩, rfl, rfl, rfl, rfl⟩, size_lemmas_after changes, hencodings.covers,
    fun change => ?_⟩
  · rw [lemma?, hlemmas.found]
  · rw [rawLemma, hlemmas.found]
    rfl
  · exact (Overlay.get?_put _ (Nat.lt_succ_self _) token i).trans (if_neg hi.symm)
  · exact (Overlay.get?_put _ (Nat.lt_succ_of_le (Nat.le_max_left ..)) token i).trans (if_neg hi.symm)
  · rw [encodings_apply]
    cases change.encoding? with
    | none => exact ⟨Nat.le_refl _, fun hgrown => absurd hgrown (Nat.lt_irrefl _)⟩
    | some write =>
      obtain ⟨index, token⟩ := write
      refine ⟨Overlay.size_le_put .., fun hgrown => ?_⟩
      show text.size ≤ Array.size (text.encodings.put index (max index (text.size - 1) + 1) token)
      rw [Overlay.size_put_of_lt hgrown]
      omega

/-- Lemmas that are set before there are tokens and again after that, and an encoding that is set behind
the others when the text has grown. -/
theorem overlays_after_interleaved :
    let changes : List Change := [.setLemma 3 (.ofWord "went"), .add (.ofWord "dogs"),
      .setEncoding 0 (.ofWord "D"), .add (.ofWord "ran"), .add (.ofWord "off"),
      .setLemma 1 (.ofWord "run"), .setLemma 3 (.ofWord "go")]
    let text := after changes
    let change : Change := .setEncoding 1 (.ofWord "R")
    text.lemma? 0 = some ⟨"dogs", 0⟩ ∧ text.rawLemma 0 = "?" ∧ text.rawLemma 1 = "run" ∧
      text.lemma? 3 = some ⟨"go", 0⟩ ∧ text.encoding? 1 = none ∧
      (text.setLemma 1 (.ofWord "be")).lemmas.get? 3 = text.lemmas.get? 3 ∧
      text.lemmas.size = 4 ∧ text.encodings.size = 1 ∧
      text.encodings.size < (change.apply text).encodings.size ∧
      text.size ≤ (change.apply text).encodings.size := by
  intro changes text change
  obtain ⟨htoken, hlemma, hraw, hencoding, hset, hsize, _, hgrow⟩ := overlays_after changes
  have hgrown : text.encodings.size < (change.apply text).encodings.size := by decide +kernel
  refine ⟨?_, (hraw 0).trans rfl, (hraw 1).trans rfl, (hlemma 3).trans rfl, (hencoding 1).trans rfl,
    ((hset 1 (.ofWord "be")).1 3 (by decide)).1, hsize.trans rfl, by decide +kernel, hgrown,
    (hgrow change).2 hgrown⟩
  rw [hlemma 0, htoken 0]
  rfl

end Text
end TokenPatterns
