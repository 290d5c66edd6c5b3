import Mathlib.Data.List.Induction
import Mathlib.Data.List.Nodup
import TokenPatterns.Text.Layer

/-! The links in a layer.

In a layer to which taggings were added one by one, each tagging is linked to its two neighbours and
the outer ones to nothing more (`Layer.chained_ofList`). So the links lead from the first tagging
through the whole layer to the last one, and back from there (`Layer.Chained.visits_next`,
`Layer.Chained.visits_previous`). With the links settled, two such layers differ only in what their
taggings say (`Layer.Chained.ext`): a link that a tagging had before it was added leaves no trace. -/
namespace TokenPatterns

/-- What a tagging says, whatever it is linked to. -/
def Tagging.content (a : Tagging) : Level × Nat × Int8 := (a.level, a.textIndex, a.label)

/-- A tagging is what it says and what it is linked to. -/
theorem Tagging.ext_content {a b : Tagging} (hcontent : a.content = b.content)
    (hprevious : a.previous = b.previous) (hnext : a.next = b.next) : a = b := by
  cases a
  cases b
  simp only [content, Prod.mk.injEq] at hcontent
  obtain ⟨rfl, rfl, rfl⟩ := hcontent
  cases hprevious
  cases hnext
  rfl

namespace Layer

/-! ### Taggings by position -/

theorem getElem?_toList (layer : Layer) (i : Nat) : layer.toList[i]? = layer.get? i :=
  Array.getElem?_toList

@[simp] theorem length_toList (layer : Layer) : layer.toList.length = layer.size := rfl

theorem lt_size_of_get? {layer : Layer} {i : Nat} {a : Tagging} (h : layer.get? i = some a) :
    i < layer.size :=
  (Array.getElem?_eq_some_iff.mp h).1

theorem exists_get? {layer : Layer} {i : Nat} (h : i < layer.size) : ∃ a, layer.get? i = some a :=
  ⟨_, Array.getElem?_eq_getElem h⟩

theorem get?_eq_none {layer : Layer} {i : Nat} (h : layer.size ≤ i) : layer.get? i = none :=
  Array.getElem?_eq_none h

theorem drop_toList {layer : Layer} {i : Nat} {a : Tagging} (h : layer.get? i = some a) :
    layer.toList.drop i = a :: layer.toList.drop (i + 1) := by
  rw [List.drop_eq_getElem?_toList_append, getElem?_toList, h]
  rfl

theorem take_toList {layer : Layer} {i : Nat} {a : Tagging} (h : layer.get? i = some a) :
    layer.toList.take (i + 1) = layer.toList.take i ++ [a] := by
  rw [List.take_add_one, getElem?_toList, h]
  rfl

/-- An added tagging comes last, and the one before it gets a link to it. -/
theorem get?_add (layer : Layer) (a : Tagging) (i : Nat) :
    (layer.add a).get? i =
      if i = layer.size then
        some {a with previous := if i = 0 then none else some (i - 1), next := none}
      else (layer.get? i).map fun b => if i + 1 = layer.size then {b with next := some (i + 1)} else b := by
  rw [get?, add, Array.getElem?_push, Array.size_modify]
  change (if i = layer.size then _ else _) = _
  by_cases hlast : i = layer.size
  · subst hlast
    rw [if_pos rfl, if_pos rfl]
  · rw [if_neg hlast, if_neg hlast, Array.getElem?_modify]
    by_cases hnext : i + 1 = layer.size
    · rw [if_pos (by omega), ← hnext]
      simp only [if_true]
      rfl
    · simp only [if_neg hnext]
      rw [Option.map_id']
      by_cases hi : layer.size - 1 = i
      · rw [if_pos hi, Array.getElem?_eq_none (show layer.size ≤ i by omega), Option.map_none]
        exact (get?_eq_none (by omega)).symm
      · rw [if_neg hi]
        rfl

/-- What the taggings of a layer say, in their order. -/
def contents (layer : Layer) : List (Level × Nat × Int8) := layer.toList.map Tagging.content

@[simp] theorem length_contents (layer : Layer) : layer.contents.length = layer.size :=
  List.length_map ..

theorem getElem?_contents (layer : Layer) (i : Nat) :
    layer.contents[i]? = (layer.get? i).map Tagging.content := by
  rw [contents, List.getElem?_map, getElem?_toList]

theorem contents_add (layer : Layer) (a : Tagging) :
    (layer.add a).contents = layer.contents ++ [a.content] := by
  apply List.ext_getElem?
  intro i
  rw [getElem?_contents, get?_add, List.getElem?_append, length_contents, getElem?_contents]
  by_cases hi : i < layer.size
  · obtain ⟨b, hb⟩ := exists_get? hi
    rw [if_neg (Nat.ne_of_lt hi), if_pos hi, hb]
    dsimp only [Option.map_some]
    split <;> rfl
  · rw [if_neg hi]
    by_cases hlast : i = layer.size
    · rw [if_pos hlast, hlast, Nat.sub_self]
      rfl
    · rw [if_neg hlast, get?_eq_none (by omega),
        List.getElem?_eq_none (by rw [List.length_singleton]; omega)]
      rfl

theorem contents_ofList (as : List Tagging) : (ofList as).contents = as.map Tagging.content := by
  induction as using List.reverseRecOn with
  | nil => rfl
  | append_singleton as a ih =>
    rw [ofList, List.foldl_append, List.map_append, ← ih]
    exact contents_add ..

/-! ### Chained layers -/

/-- Whether each tagging is linked to the position before it and to that behind it, as far as there
are such positions in the layer. -/
def Chained (layer : Layer) : Prop :=
  ∀ i a, layer.get? i = some a →
    a.previous = (if i = 0 then none else some (i - 1)) ∧
      a.next = if i + 1 < layer.size then some (i + 1) else none

theorem chained_empty : empty.Chained := fun _ _ h => nomatch h

/-- Adding a tagging keeps a layer chained, whatever the tagging was linked to. -/
theorem Chained.add {layer : Layer} (h : layer.Chained) (a : Tagging) : (layer.add a).Chained := by
  intro i b hb
  rw [get?_add] at hb
  rw [size_add]
  by_cases hlast : i = layer.size
  · rw [if_pos hlast] at hb
    cases hb
    exact ⟨rfl, (if_neg (by omega)).symm⟩
  · rw [if_neg hlast] at hb
    obtain ⟨c, hc, rfl⟩ := Option.map_eq_some_iff.mp hb
    have hi := lt_size_of_get? hc
    obtain ⟨hprevious, hnext⟩ := h i c hc
    by_cases hbehind : i + 1 = layer.size
    · rw [if_pos hbehind]
      exact ⟨hprevious, (if_pos (by omega)).symm⟩
    · rw [if_neg hbehind]
      refine ⟨hprevious, hnext.trans ?_⟩
      rw [if_pos (by omega), if_pos (by omega)]

theorem chained_ofList (as : List Tagging) : (ofList as).Chained := by
  induction as using List.reverseRecOn with
  | nil => exact chained_empty
  | append_singleton as a ih =>
    rw [ofList, List.foldl_append]
    exact ih.add a

/-- Two chained layers that say the same are one layer. -/
theorem Chained.ext {layer other : Layer} (h : layer.Chained) (h' : other.Chained)
    (hcontents : layer.contents = other.contents) : layer = other := by
  have hsize : layer.size = other.size := by
    rw [← length_contents, ← length_contents, hcontents]
  suffices htoList : layer.toList = other.toList by
    cases layer
    cases other
    exact congrArg mk (Array.ext' htoList)
  apply List.ext_getElem?
  intro i
  rw [getElem?_toList, getElem?_toList]
  have hcontent : (layer.get? i).map Tagging.content = (other.get? i).map Tagging.content := by
    rw [← getElem?_contents, ← getElem?_contents, hcontents]
  cases ha : layer.get? i with
  | none =>
    rw [ha, Option.map_none] at hcontent
    exact (Option.map_eq_none_iff.mp hcontent.symm).symm
  | some a =>
    rw [ha, Option.map_some] at hcontent
    obtain ⟨b, hb, hab⟩ := Option.map_eq_some_iff.mp hcontent.symm
    obtain ⟨hprevious, hnext⟩ := h i a ha
    obtain ⟨hprevious', hnext'⟩ := h' i b hb
    rw [hb, Tagging.ext_content hab (hprevious'.trans hprevious.symm)
      (hnext'.trans (hsize ▸ hnext.symm))]

/-! ### Following the links -/

/-- Taggings one behind another, as they are met when one starts somewhere and follows a link from
each of them until there is none. -/
inductive Visits (follow : Tagging → Option Tagging) : Option Tagging → List Tagging → Prop
  | stop : Visits follow none []
  | go {a : Tagging} {as : List Tagging} : Visits follow (follow a) as → Visits follow (some a) (a :: as)

namespace Chained

variable {layer : Layer} (h : layer.Chained)
include h

theorem nextOf_eq {i : Nat} {a : Tagging} (ha : layer.get? i = some a) :
    layer.nextOf a = layer.get? (i + 1) := by
  rw [nextOf, (h i a ha).2]
  by_cases hi : i + 1 < layer.size
  · rw [if_pos hi, Option.bind_some]
  · rw [if_neg hi, get?_eq_none (Nat.le_of_not_lt hi), Option.bind_none]

theorem previousOf_eq {i : Nat} {a : Tagging} (ha : layer.get? (i + 1) = some a) :
    layer.previousOf a = layer.get? i := by
  rw [previousOf, (h (i + 1) a ha).1, if_neg (Nat.succ_ne_zero i), Option.bind_some,
    Nat.add_sub_cancel]

theorem previousOf_first {a : Tagging} (ha : layer.get? 0 = some a) : layer.previousOf a = none := by
  rw [previousOf, (h 0 a ha).1, if_pos rfl, Option.bind_none]

/-- The links back from the next tagging lead to where one was. -/
theorem previousOf_nextOf {a b : Tagging} (ha : a ∈ layer.toList) (hb : layer.nextOf a = some b) :
    layer.previousOf b = some a := by
  obtain ⟨i, hi⟩ := List.getElem?_of_mem ha
  rw [getElem?_toList] at hi
  rw [h.nextOf_eq hi] at hb
  rw [h.previousOf_eq hb, hi]

/-- From any position on, the links to the next tagging lead through the rest of the layer. -/
theorem visits_drop {n i : Nat} (hn : i + n = layer.size) :
    Visits layer.nextOf (layer.get? i) (layer.toList.drop i) := by
  induction n generalizing i with
  | zero =>
    have hend : layer.size ≤ i := Nat.le_of_eq hn.symm
    rw [get?_eq_none hend, List.drop_eq_nil_of_le (length_toList layer ▸ hend)]
    exact .stop
  | succ n ih =>
    obtain ⟨a, ha⟩ := exists_get? (show i < layer.size by omega)
    rw [drop_toList ha, ha]
    exact .go (h.nextOf_eq ha ▸ ih (by omega))

/-- From any position back, the links to the previous tagging lead to the first one. -/
theorem visits_take {i : Nat} (hi : i < layer.size) :
    Visits layer.previousOf (layer.get? i) (layer.toList.take (i + 1)).reverse := by
  induction i with
  | zero =>
    obtain ⟨a, ha⟩ := exists_get? hi
    rw [take_toList ha, List.reverse_concat, ha]
    refine .go ?_
    rw [h.previousOf_first ha]
    exact .stop
  | succ i ih =>
    obtain ⟨a, ha⟩ := exists_get? hi
    rw [take_toList ha, List.reverse_concat, ha]
    refine .go ?_
    rw [h.previousOf_eq ha]
    exact ih (Nat.lt_of_succ_lt hi)

theorem visits_next : Visits layer.nextOf layer.first? layer.toList :=
  h.visits_drop (Nat.zero_add layer.size)

theorem visits_previous : Visits layer.previousOf layer.toList.getLast? layer.toList.reverse := by
  rw [List.getLast?_eq_getElem?, getElem?_toList, length_toList]
  cases hsize : layer.size with
  | zero =>
    rw [get?_eq_none (by omega), List.eq_nil_of_length_eq_zero ((length_toList layer).trans hsize)]
    exact .stop
  | succ n =>
    have hvisits := h.visits_take (show n < layer.size by omega)
    rwa [List.take_of_length_le (by rw [length_toList]; omega)] at hvisits

/-- No tagging stands at two positions: they would be linked to different ones. -/
theorem nodup_toList : layer.toList.Nodup := by
  rw [List.nodup_iff_getElem?_ne_getElem?]
  intro i j hij hj heq
  obtain ⟨a, ha⟩ := exists_get? (show j < layer.size from hj)
  rw [getElem?_toList, getElem?_toList, ha] at heq
  have hlinks := (h i a heq).1.symm.trans (h j a ha).1
  rw [if_neg (show j ≠ 0 by omega)] at hlinks
  split at hlinks
  · cases hlinks
  · have := Option.some.inj hlinks
    omega

end Chained

/-- Taggings that are added one by one, with whatever links they come, make a list that is linked both
ways. Following the links from the first tagging meets every tagging once, in the order in which they
were added, and then ends; following the links back from the last one meets them in reverse; and the
tagging before the next one is the tagging itself. Layers are equal just if what their taggings say
is, one after another. -/
theorem links_ofList (as : List Tagging) :
    let layer := ofList as
    layer.toList.map Tagging.content = as.map Tagging.content ∧ layer.toList.Nodup ∧
    Visits layer.nextOf layer.first? layer.toList ∧
    Visits layer.previousOf layer.toList.getLast? layer.toList.reverse ∧
    (∀ a ∈ layer.toList, ∀ b, layer.nextOf a = some b → layer.previousOf b = some a) ∧
    ∀ bs, layer = ofList bs ↔ as.map Tagging.content = bs.map Tagging.content := by
  intro layer
  have hchained : layer.Chained := chained_ofList as
  refine ⟨contents_ofList as, hchained.nodup_toList, hchained.visits_next, hchained.visits_previous,
    fun a ha b hb => hchained.previousOf_nextOf ha hb, fun bs => ⟨fun heq => ?_, fun heq => ?_⟩⟩
  · rw [← contents_ofList as, ← contents_ofList bs, show ofList as = ofList bs from heq]
  · apply hchained.ext (chained_ofList bs)
    rw [contents_ofList bs, ← heq]
    exact contents_ofList as

/-- Three taggings, the outer two of them copied with the links that they had in another layer. -/
theorem links_ofList_stale :
    let old := ofList [.ofCode 0 12, .ofCode 1 27, .ofCode 2 20]
    let last : Tagging := ⟨.pos, 2, 20, some 1, none⟩
    let middle : Tagging := ⟨.pos, 1, 27, some 0, some 2⟩
    let layer := ofList [last, .ofCode 5 9, middle]
    let first : Tagging := {last with previous := none, next := some 1}
    old.get? 2 = some last ∧ old.get? 1 = some middle ∧
      layer = ofList [.ofCode 2 20, .ofCode 5 9, .ofCode 1 27] ∧
      first ∈ layer.toList ∧ layer.nextOf first = some ⟨.pos, 5, 9, some 0, some 2⟩ ∧
      layer.previousOf ⟨.pos, 5, 9, some 0, some 2⟩ = some first := by
  intro old last middle layer first
  obtain ⟨_, _, _, _, hback, hequal⟩ := links_ofList [last, .ofCode 5 9, middle]
  have hfirst : first ∈ layer.toList := by decide
  have hnext : layer.nextOf first = some ⟨.pos, 5, 9, some 0, some 2⟩ := by decide
  exact ⟨by decide, by decide, (hequal _).mpr (by decide), hfirst, hnext, hback first hfirst _ hnext⟩

end Layer
end TokenPatterns
