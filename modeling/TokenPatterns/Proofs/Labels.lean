import Mathlib.Data.List.DropRight
import TokenPatterns.Pattern.Style

/-! The grammar of style labels.

A style text is a row of groups with semicolons between them. A group is a label if it is a key and a
value with one equals sign between them and any number of them behind (`IsLabel`), and only labels
count (`ofGroup?_eq_some_iff`). They are laid one over another from left to right, so that the labels
of two texts with a semicolon between them are those of the first text with those of the second laid
over them (`parse_append`), and labels that are written down are read back (`parse_render`). -/
namespace TokenPatterns.Style

/-! ### Groups -/

/-- Whether a text falls into groups: none of them holds a semicolon, and with semicolons between them
they are the text. -/
structure Grouped (styles : String) (groups : List (List Char)) : Prop where
  ne_nil : groups ≠ []
  undivided : ∀ group ∈ groups, ';' ∉ group
  joined : styles.toList = [';'].intercalate groups

/-- No piece holds the character at which a text is cut. -/
theorem not_mem_of_mem_splitOn {sep : Char} {cs piece : List Char} (h : piece ∈ cs.splitOn sep) :
    sep ∉ piece := by
  intro hsep
  have hcut : (sep == sep) = false := Letter.not_of_mem_splitOnP h hsep
  rw [beq_self_eq_true] at hcut
  cases hcut

theorem grouped_iff {styles : String} {groups : List (List Char)} :
    Grouped styles groups ↔ groups = styles.toList.splitOn ';' := by
  constructor
  · intro h
    rw [h.joined, List.splitOn_intercalate ';' h.undivided h.ne_nil]
  · rintro rfl
    exact ⟨List.splitOn_ne_nil _ _, fun _ => not_mem_of_mem_splitOn,
      (List.intercalate_splitOn ';').symm⟩

/-- Whether a group is a key and a value: there is one equals sign between the two and there may be
more behind them, neither of the two holds an equals sign, and neither is blank. -/
structure IsLabel (group key value : List Char) : Prop where
  written : ∃ n, group = key ++ '=' :: (value ++ List.replicate n '=')
  key_whole : '=' ∉ key
  value_whole : '=' ∉ value
  key_shown : Letter.allBlank key = false
  value_shown : Letter.allBlank value = false

/-- The pieces of a group between equals signs are those that count and empty ones behind them. -/
theorem exists_splitOn_eq (group : List Char) :
    ∃ n, group.splitOn '=' = pieces group ++ List.replicate n [] := by
  let empties := (group.splitOn '=').rtakeWhile List.isEmpty
  have hempties : empties = List.replicate empties.length [] :=
    List.eq_replicate_of_mem fun _ hpiece => List.isEmpty_iff.mp (List.mem_rtakeWhile_imp hpiece)
  refine ⟨empties.length, ?_⟩
  rw [← hempties]
  exact List.rdropWhile_append_rtakeWhile.symm

/-- Empty pieces behind a piece leave their separators. -/
theorem intercalate_cons_replicate (sep : Char) (piece : List Char) (n : Nat) :
    [sep].intercalate (piece :: List.replicate n []) = piece ++ List.replicate n sep := by
  induction n generalizing piece with
  | zero => rw [List.replicate_zero, List.replicate_zero, List.intercalate_singleton, List.append_nil]
  | succ n ih =>
    rw [List.replicate_succ, List.intercalate_cons_cons, ih, List.nil_append, List.append_assoc,
      List.singleton_append, List.replicate_succ]

/-- A key, a value and empty pieces behind them, with equals signs between each two. -/
theorem intercalate_pair_replicate (key value : List Char) (n : Nat) :
    ['='].intercalate (key :: value :: List.replicate n []) =
      key ++ '=' :: (value ++ List.replicate n '=') := by
  rw [List.intercalate_cons_cons, intercalate_cons_replicate, List.append_assoc, List.singleton_append]

/-- A group has two pieces if it is a text, an equals sign and a text that is not empty, and equals
signs behind that. -/
theorem pieces_eq_pair_iff {group key value : List Char} (hvalue : value ≠ []) :
    pieces group = [key, value] ↔
      (∃ n, group = key ++ '=' :: (value ++ List.replicate n '=')) ∧ '=' ∉ key ∧ '=' ∉ value := by
  constructor
  · intro hpieces
    obtain ⟨n, hsplit⟩ := exists_splitOn_eq group
    rw [hpieces] at hsplit
    have hwhole : ∀ piece ∈ [key, value], '=' ∉ piece := fun piece hpiece =>
      not_mem_of_mem_splitOn (hsplit ▸ List.mem_append_left _ hpiece)
    refine ⟨⟨n, ?_⟩, hwhole key List.mem_cons_self,
      hwhole value (List.mem_cons_of_mem _ List.mem_cons_self)⟩
    have hjoined : ['='].intercalate (group.splitOn '=') = group := List.intercalate_splitOn '='
    rw [← intercalate_pair_replicate, ← hjoined, hsplit]
    rfl
  · rintro ⟨⟨n, rfl⟩, hkey, hwhole⟩
    have hundivided : ∀ piece ∈ key :: value :: List.replicate n [], '=' ∉ piece := by
      intro piece hpiece
      rcases List.mem_cons.mp hpiece with rfl | hpiece
      · exact hkey
      rcases List.mem_cons.mp hpiece with rfl | hpiece
      · exact hwhole
      · rw [(List.mem_replicate.mp hpiece).2]
        exact List.not_mem_nil
    have hempty : ∀ piece ∈ List.replicate n ([] : List Char), piece.isEmpty = true :=
      fun piece hpiece => by rw [(List.mem_replicate.mp hpiece).2]; rfl
    rw [pieces, ← intercalate_pair_replicate,
      List.splitOn_intercalate '=' hundivided (List.cons_ne_nil _ _), List.reverse_cons,
      List.reverse_cons, List.reverse_replicate, List.append_assoc,
      List.dropWhile_append_of_pos hempty, List.singleton_append, List.dropWhile_cons_of_neg]
    · rfl
    · rwa [List.isEmpty_iff]

/-- A group counts if it is a key and a value, and both are trimmed. -/
theorem ofGroup?_eq_some_iff {group : List Char} {label : String × String} :
    ofGroup? group = some label ↔ ∃ key value, IsLabel group key value ∧
      label = (String.ofList (Letter.trim key), String.ofList (Letter.trim value)) := by
  have hne : ∀ {value : List Char}, Letter.allBlank value = false → value ≠ [] := by
    rintro value hshown rfl
    cases hshown
  constructor
  · intro h
    rw [ofGroup?] at h
    split at h
    · next key value hpieces =>
      split at h
      · cases h
      · next hblank =>
        rw [Bool.or_eq_true, not_or, Bool.not_eq_true, Bool.not_eq_true] at hblank
        obtain ⟨hwritten, hkey, hvalue⟩ := (pieces_eq_pair_iff (hne hblank.2)).mp hpieces
        exact ⟨key, value, ⟨hwritten, hkey, hvalue, hblank.1, hblank.2⟩, (Option.some.inj h).symm⟩
    · cases h
  · rintro ⟨key, value, h, rfl⟩
    rw [ofGroup?, (pieces_eq_pair_iff (hne h.value_shown)).mpr ⟨h.written, h.key_whole, h.value_whole⟩]
    dsimp only
    rw [h.key_shown, h.value_shown]
    rfl

/-! ### Rows of groups -/

/-- Groups laid over some labels, from left to right: a key and a value are trimmed and laid over what
is there, and any other group leaves that as it is. -/
inductive Lays : Bindings → List (List Char) → Bindings → Prop
  | nil (labels : Bindings) : Lays labels [] labels
  | label {labels laid : Bindings} {group key value : List Char} {groups : List (List Char)} :
      IsLabel group key value →
      Lays (labels.insert (String.ofList (Letter.trim key)) (String.ofList (Letter.trim value))) groups
        laid →
      Lays labels (group :: groups) laid
  | other {labels laid : Bindings} {group : List Char} {groups : List (List Char)} :
      (∀ key value, ¬IsLabel group key value) → Lays labels groups laid →
      Lays labels (group :: groups) laid

theorem lays_iff {labels laid : Bindings} {groups : List (List Char)} :
    Lays labels groups laid ↔ overlay labels (groups.filterMap ofGroup?) = laid := by
  constructor
  · intro h
    induction h with
    | nil labels => rfl
    | label hlabel _ ih =>
      rw [List.filterMap_cons_some (ofGroup?_eq_some_iff.mpr ⟨_, _, hlabel, rfl⟩)]
      exact ih
    | other hother _ ih =>
      rw [List.filterMap_cons_none]
      · exact ih
      · rw [Option.eq_none_iff_forall_ne_some]
        intro label hsome
        obtain ⟨key, value, hlabel, _⟩ := ofGroup?_eq_some_iff.mp hsome
        exact hother key value hlabel
  · rintro rfl
    induction groups generalizing labels with
    | nil => exact .nil labels
    | cons group groups ih =>
      cases hgroup : ofGroup? group with
      | none =>
        rw [List.filterMap_cons_none hgroup]
        refine .other (fun key value hlabel => ?_) ih
        rw [ofGroup?_eq_some_iff.mpr ⟨key, value, hlabel, rfl⟩] at hgroup
        cases hgroup
      | some label =>
        obtain ⟨key, value, hlabel, rfl⟩ := ofGroup?_eq_some_iff.mp hgroup
        rw [List.filterMap_cons_some hgroup]
        exact .label hlabel ih

/-! ### Labels laid over labels -/

theorem overlay_eq_insertMany (labels : Bindings) (pairs : List (String × String)) :
    overlay labels pairs = labels.insertMany pairs :=
  Std.ExtTreeMap.insertMany_list_eq_foldl.symm

theorem pairs_append (styles more : String) :
    pairs (styles ++ ";" ++ more) = pairs styles ++ pairs more := by
  have htext : (styles ++ ";" ++ more).toList = styles.toList ++ ';' :: more.toList := by
    simp
  rw [pairs, htext, List.splitOn_append_cons_self, List.filterMap_append]
  rfl

/-- The labels of two texts with a semicolon between them. -/
theorem parse_append (styles more : String) :
    parse (styles ++ ";" ++ more) = (parse styles).overlay (parse more) := by
  simp only [parse, pairs_append, overlay_eq_insertMany, Std.ExtTreeMap.insertMany_append]
  refine Std.ExtTreeMap.ext_getElem? fun key => ?_
  rw [Bindings.getElem?_overlay, Std.ExtTreeMap.getElem?_insertMany_list,
    Std.ExtTreeMap.getElem?_insertMany_list (t := ∅) (l := pairs more), Std.ExtTreeMap.getElem?_empty,
    Option.or_none]

/-! ### Labels written down -/

/-- Whether a text can be the key or the value of a label that is written down: it is not empty, begins
and ends without a blank, and holds neither a semicolon nor an equals sign. -/
structure IsPart (part : String) : Prop where
  ne_empty : part ≠ ""
  trimmed : Letter.trim part.toList = part.toList
  undivided : ';' ∉ part.toList
  whole : '=' ∉ part.toList

instance : DecidablePred IsPart := fun _ =>
  decidable_of_iff (_ ∧ _ ∧ _ ∧ _)
    ⟨fun ⟨h, htrim, hundivided, hwhole⟩ => ⟨h, htrim, hundivided, hwhole⟩,
      fun h => ⟨h.ne_empty, h.trimmed, h.undivided, h.whole⟩⟩

/-- Labels written down one after another. -/
def render (labels : List (String × String)) : String :=
  ";".intercalate (labels.map fun (key, value) => key ++ "=" ++ value)

/-- What is not empty after trimming is not blank. -/
theorem IsPart.shown {part : String} (h : IsPart part) : Letter.allBlank part.toList = false := by
  rw [Bool.eq_false_iff]
  intro hblank
  have hstart : Letter.trimStart part.toList = [] :=
    List.dropWhile_eq_nil_iff.mpr (List.all_eq_true.mp hblank)
  have htrim := h.trimmed
  rw [Letter.trim, hstart] at htrim
  exact h.ne_empty (String.toList_eq_nil_iff.mp htrim.symm)

theorem pairs_label {key value : String} (hkey : IsPart key) (hvalue : IsPart value) :
    pairs (key ++ "=" ++ value) = [(key, value)] := by
  have hundivided : ';' ∉ (key ++ "=" ++ value).toList := by
    simpa using ⟨hkey.undivided, hvalue.undivided⟩
  have hgroup : ofGroup? (key ++ "=" ++ value).toList = some (key, value) := by
    refine ofGroup?_eq_some_iff.mpr ⟨key.toList, value.toList, ⟨⟨0, ?_⟩, hkey.whole, hvalue.whole,
      hkey.shown, hvalue.shown⟩, ?_⟩
    · simp
    · rw [hkey.trimmed, hvalue.trimmed, String.ofList_toList, String.ofList_toList]
  rw [pairs, List.splitOn_eq_singleton hundivided, List.filterMap_cons_some hgroup,
    List.filterMap_nil]

/-- Labels are read back in the order in which they were written down. -/
theorem pairs_render {labels : List (String × String)}
    (h : ∀ p ∈ labels, IsPart p.1 ∧ IsPart p.2) : pairs (render labels) = labels := by
  induction labels with
  | nil => rfl
  | cons p labels ih =>
    obtain ⟨hkey, hvalue⟩ := h p List.mem_cons_self
    cases labels with
    | nil =>
      rw [render, List.map_singleton, String.intercalate_singleton]
      exact pairs_label hkey hvalue
    | cons q labels =>
      have hrender : render (p :: q :: labels) = p.1 ++ "=" ++ p.2 ++ ";" ++ render (q :: labels) :=
        String.intercalate_cons_cons
      rw [hrender, pairs_append, pairs_label hkey hvalue, ih fun r hr => h r (List.mem_cons_of_mem _ hr)]
      rfl

/-- Labels that are written down in any order are read back. -/
theorem parse_render {labels : Bindings} {written : List (String × String)}
    (hwritten : written.Perm labels.toList) (h : ∀ p ∈ written, IsPart p.1 ∧ IsPart p.2) :
    parse (render written) = labels := by
  have hdistinct : written.Pairwise fun a b => ¬compare a.1 b.1 = .eq :=
    Std.ExtTreeMap.distinct_keys_toList.perm hwritten.symm fun hne heq =>
      hne (Std.OrientedCmp.eq_symm heq)
  have hmem : ∀ key value, (key, value) ∈ written ↔ labels[key]? = some value := fun key value => by
    rw [hwritten.mem_iff, Std.ExtTreeMap.mem_toList_iff_getElem?_eq_some]
  rw [parse, pairs_render h, overlay_eq_insertMany]
  refine Std.ExtTreeMap.ext_getElem? fun key => ?_
  cases hkey : labels[key]? with
  | some value =>
    exact Std.ExtTreeMap.getElem?_insertMany_list_of_mem Std.ReflCmp.compare_self hdistinct
      ((hmem key value).mpr hkey)
  | none =>
    have habsent : (written.map Prod.fst).contains key = false := by
      rw [Bool.eq_false_iff, Ne, List.contains_iff_mem, List.mem_map]
      rintro ⟨⟨_, value⟩, hp, rfl⟩
      rw [(hmem _ value).mp hp] at hkey
      cases hkey
    rw [Std.ExtTreeMap.getElem?_insertMany_list_of_contains_eq_false habsent,
      Std.ExtTreeMap.getElem?_empty]

/-! ### The grammar -/

/-- Every style text falls into groups in one way, and its labels are those of its groups laid over one
another from left to right: a group that is a key and a value, with one equals sign between them and any
number behind, lays the trimmed value under the trimmed key, and no other group lays anything. So the
labels of two texts with a semicolon between them are those of the first text with those of the second
laid over them, and labels that can be written down are read back, in whatever order they are written. -/
theorem parse_grouped :
    (∀ styles : String, ∃! groups, Grouped styles groups) ∧
    (∀ (styles : String) (groups : List (List Char)), Grouped styles groups →
      ∀ labels, Lays ∅ groups labels ↔ parse styles = labels) ∧
    (∀ styles more : String, parse (styles ++ ";" ++ more) = (parse styles).overlay (parse more)) ∧
    ∀ (labels : Bindings) (written : List (String × String)), written.Perm labels.toList →
      (∀ p ∈ labels.toList, IsPart p.1 ∧ IsPart p.2) → parse (render written) = labels := by
  refine ⟨fun styles => ?_, fun styles groups hgroups labels => ?_, parse_append,
    fun labels written hwritten h => ?_⟩
  · exact ⟨styles.toList.splitOn ';', grouped_iff.mpr rfl, fun groups => grouped_iff.mp⟩
  · rw [lays_iff, grouped_iff.mp hgroups]
    rfl
  · exact parse_render hwritten fun p hp => h p (hwritten.mem_iff.mp hp)

/-- Groups with too many equals signs, without a key and with one sign too many at their end, and labels
that are written down against their order. -/
theorem parse_grouped_malformed :
    let styles := "a=1=2; k = v ==;=c;k=w"
    let groups := ["a=1=2", " k = v ==", "=c", "k=w"].map String.toList
    let labels : Bindings := .ofList [("lang", "fr"), ("mood", "*")]
    let written := [("mood", "*"), ("lang", "fr")]
    (Grouped styles groups ∧ Lays ∅ groups (parse styles) ∧
      IsLabel " k = v ==".toList " k ".toList " v ".toList ∧ (parse styles).toList = [("k", "w")]) ∧
    written.Perm labels.toList ∧ (∀ p ∈ labels.toList, IsPart p.1 ∧ IsPart p.2) ∧
      render written = "mood=*;lang=fr" ∧ parse (render written) = labels := by
  intro styles groups labels written
  obtain ⟨_, hlaid, _, hread⟩ := parse_grouped
  have hgroups : Grouped styles groups := grouped_iff.mpr (by decide +kernel)
  have hlabels : labels.toList = [("lang", "fr"), ("mood", "*")] := by decide +kernel
  have hwritten : written.Perm labels.toList := hlabels ▸ List.Perm.swap ..
  have hparts : ∀ p ∈ labels.toList, IsPart p.1 ∧ IsPart p.2 := by
    rw [hlabels]
    decide +kernel
  exact ⟨⟨hgroups, (hlaid styles groups hgroups _).mpr rfl,
      ⟨⟨2, by decide +kernel⟩, by decide +kernel, by decide +kernel, by decide +kernel,
        by decide +kernel⟩, by decide +kernel⟩,
    hwritten, hparts, by decide +kernel, hread labels written hwritten hparts⟩

end TokenPatterns.Style
