import TokenPatterns.Proofs.Registry.History
import TokenPatterns.Proofs.Registry.Scan

/-! Reported styles.

A registry of any history has the style keys of its matchers among its defaults, so whatever it
reports has just the keys of the defaults: those that the winner sets with its own values, the
others with the wildcard (`getElem?_report`). All matches of a scan have the same keys then, and the
last one lays its styles over all that the matches before it had (`styles_ofMatches`). -/
namespace TokenPatterns

/-- Where the last of some matches has the style keys of all, the styles are those of the last. -/
theorem ScanResult.styles_ofMatches {ms : List MatchResult} {last : MatchResult}
    (hlast : ms.getLast? = some last) (h : ∀ x ∈ ms, ∀ key ∈ x.styles, key ∈ last.styles) :
    (ofMatches ms).styles = last.styles := by
  obtain ⟨before, rfl⟩ := List.getLast?_eq_some_iff.mp hlast
  refine Std.ExtTreeMap.ext_getElem? fun key => ?_
  have hfold : (ofMatches (before ++ [last])).styles[key]? =
      ((before ++ [last]).filterMap (·.styles[key]?)).getLast? :=
    Bindings.getElem?_foldl_overlay MatchResult.styles _ key
  rw [hfold]
  cases hkey : last.styles[key]? with
  | some value => simp [hkey]
  | none =>
    rw [List.getLast?_eq_none_iff, List.filterMap_eq_nil_iff]
    intro x hx
    refine Std.ExtTreeMap.getElem?_eq_none fun hmem => ?_
    rw [Std.ExtTreeMap.getElem?_eq_some_getElem (h x hx key hmem)] at hkey
    cases hkey

namespace Registry

/-! ### Default styles of a registry -/

/-- Every registry that there can be has a history that starts empty. -/
theorem Reachable.exists_history {r : Registry} (hr : r.Reachable) : ∃ ops, r = after {} ops := by
  induction hr with
  | empty => exact ⟨[], rfl⟩
  | configured answer s hconfig =>
    rw [ofConfig_of_sound hconfig, Inquiry.runWith_map]
    exact ⟨_, rfl⟩
  | @add r r' m _ _ hadd ih =>
    obtain ⟨ops, rfl⟩ := ih
    have hregister : ((after {} ops).perform (.register m)).1 = r' := by rw [perform, hadd]
    exact ⟨ops ++ [.register m], by rw [after_concat, hregister]⟩
  | @addIfValid r m _ _ ih =>
    obtain ⟨ops, rfl⟩ := ih
    exact ⟨ops ++ [.register m], by rw [after_concat, addIfValid_eq_perform]⟩
  | remove id _ ih =>
    obtain ⟨ops, rfl⟩ := ih
    exact ⟨ops ++ [.remove id], by rw [after_concat, perform]⟩

theorem accepted_of_mem_surviving {ops : List Operation} {m : Matcher} (h : m ∈ surviving ops) :
    m ∈ accepted ops := by
  induction ops with
  | nil => exact h
  | cons op ops ih =>
    rw [accepted, List.mem_filterMap]
    rcases List.mem_append.mp h with hop | hops
    · exact ⟨op, List.mem_cons_self, Option.mem_toList.mp (List.mem_filter.mp hop).1⟩
    · obtain ⟨other, hother, hm⟩ := List.mem_filterMap.mp (ih hops)
      exact ⟨other, List.mem_cons_of_mem _ hother, hm⟩

namespace Reachable

variable {r : Registry} (hr : r.Reachable)
include hr

/-- The default styles have every style key of a registered matcher. -/
theorem mem_defaultStyles {m : Matcher} (hm : m ∈ r.matchers) {key : String}
    (hkey : key ∈ m.styles) : key ∈ r.defaultStyles := by
  obtain ⟨ops, rfl⟩ := hr.exists_history
  rw [matchers_after_empty] at hm
  rw [Std.ExtTreeMap.mem_iff_isSome_getElem?, getElem?_defaultStyles_after,
    if_pos ⟨m, accepted_of_mem_surviving hm, hkey⟩]
  rfl

/-- Each default style is the wildcard. -/
theorem getElem?_defaultStyles {key : String} (hkey : key ∈ r.defaultStyles) :
    r.defaultStyles[key]? = some Style.wildcard := by
  obtain ⟨ops, rfl⟩ := hr.exists_history
  rw [Std.ExtTreeMap.mem_iff_isSome_getElem?] at hkey
  rw [getElem?_defaultStyles_after, Option.isSome_ite] at hkey
  rw [getElem?_defaultStyles_after, if_pos hkey]

/-- A report has the keys of the default styles, with the values that the matcher sets and with the
wildcard where it sets none. -/
theorem getElem?_report {m : Matcher} (hm : m ∈ r.matchers) (found : PatternMatch) (key : String) :
    (r.report m found).styles[key]? =
      if key ∈ r.defaultStyles then some (m.styles[key]?.getD Style.wildcard) else none := by
  rw [report, Bindings.getElem?_overlay]
  by_cases hkey : key ∈ r.defaultStyles
  · rw [if_pos hkey, hr.getElem?_defaultStyles hkey]
    cases m.styles[key]? <;> rfl
  · have hunset : key ∉ m.styles := fun hset => hkey (hr.mem_defaultStyles hm hset)
    rw [if_neg hkey, Std.ExtTreeMap.getElem?_eq_none hkey, Std.ExtTreeMap.getElem?_eq_none hunset]
    rfl

theorem mem_report {m : Matcher} (hm : m ∈ r.matchers) (found : PatternMatch) (key : String) :
    key ∈ (r.report m found).styles ↔ key ∈ r.defaultStyles := by
  rw [Std.ExtTreeMap.mem_iff_isSome_getElem?, hr.getElem?_report hm]
  split <;> simp [*]

end Reachable

/-! ### Matches of a scan -/

section Answers

variable {σ : Type} (answer : Query → σ → SynsetSet × σ) (r : Registry) (text : Text)

/-- What a scan finds is the best match at some position, in the state that the scan comes there
with. -/
theorem exists_bestMatch_of_mem_scanFrom {remaining covered : Nat} {s : σ} {x : MatchResult}
    (hremaining : remaining ≤ text.size)
    (h : x ∈ ((r.scanFrom text remaining covered).runWith answer s).1) :
    ∃ i < text.size, ∃ s', ((r.bestMatch text i text.size).runWith answer s').1 = some x := by
  induction remaining generalizing covered s with
  | zero => cases h
  | succ remaining ih =>
    have hle : remaining ≤ text.size := Nat.le_of_succ_le hremaining
    cases covered with
    | succ covered => exact ih hle h
    | zero =>
      rw [scanFrom, Inquiry.runWith_bind] at h
      split at h
      · exact ih hle h
      · next found hfound =>
        rw [Inquiry.runWith_bind, Inquiry.runWith_pure] at h
        rcases List.mem_cons.mp h with rfl | hrest
        · exact ⟨text.size - (remaining + 1), by omega, s, hfound⟩
        · exact ih hle hrest

/-- Whatever a registry finds best has the style keys of its defaults. The matcher that wins sets no
others, and the keys that it does not set have the wildcard. So a scan reports the styles of its last
match, with nothing left of the values that only earlier ones set, and none at all if there is no
match. -/
theorem scan_styles (s : σ) (hr : r.Reachable) :
    (∀ first stop result, ((r.bestMatch text first stop).runWith answer s).1 = some result →
      ∃ i m found, Wins r (results answer text first stop r.matchers s) i m found ∧
        result = r.report m found ∧ (∀ key ∈ m.styles, key ∈ r.defaultStyles) ∧
        ∀ key : String, result.styles[key]? =
          if key ∈ r.defaultStyles then some (m.styles[key]?.getD Style.wildcard) else none) ∧
    let ms := ((r.scanFrom text text.size 0).runWith answer s).1
    let found := ((r.scan text).runWith answer s).1
    found.templateIds = ms.map (·.templateId) ∧
    (∀ x ∈ ms, ∃ i < text.size, ∃ s',
      ((r.bestMatch text i text.size).runWith answer s').1 = some x) ∧
    (ms = [] → found.styles = ∅) ∧
    ∀ last, ms.getLast? = some last → found.styles = last.styles ∧
      ∃ m ∈ r.matchers, last.templateId = m.id ∧ ∀ key : String, found.styles[key]? =
        if key ∈ r.defaultStyles then some (m.styles[key]?.getD Style.wildcard) else none := by
  refine ⟨fun first stop result hresult => ?_, ?_⟩
  · obtain ⟨i, m, found, hwins, rfl⟩ := exists_wins hr hresult
    have hm : m ∈ r.matchers := List.mem_of_getElem? hwins.matcher
    exact ⟨i, m, found, hwins, rfl, fun key => hr.mem_defaultStyles hm, hr.getElem?_report hm found⟩
  · intro ms found
    have hfound : found = ScanResult.ofMatches ms := by
      rw [show found = ((r.scan text).runWith answer s).1 from rfl, scan, Inquiry.runWith_map]
    have hbest : ∀ x ∈ ms, ∃ i < text.size, ∃ s',
        ((r.bestMatch text i text.size).runWith answer s').1 = some x := fun x hx =>
      exists_bestMatch_of_mem_scanFrom answer r text (Nat.le_refl _) hx
    have hreport : ∀ x ∈ ms, ∃ m ∈ r.matchers, ∃ outcome, x = r.report m outcome := by
      intro x hx
      obtain ⟨i, _, s', hresult⟩ := hbest x hx
      obtain ⟨_, m, outcome, hwins, hx⟩ := exists_wins hr hresult
      exact ⟨m, List.mem_of_getElem? hwins.matcher, outcome, hx⟩
    refine ⟨by rw [hfound]; rfl, hbest, fun hnil => by rw [hfound, hnil]; rfl, fun last hlast => ?_⟩
    obtain ⟨m, hm, outcome, hm_last⟩ := hreport last (List.mem_of_getLast? hlast)
    have hstyles : found.styles = last.styles := by
      rw [hfound]
      refine ScanResult.styles_ofMatches hlast fun x hx key hkey => ?_
      obtain ⟨other, hother, _, rfl⟩ := hreport x hx
      rw [hm_last, hr.mem_report hm]
      exact (hr.mem_report hother _ key).mp hkey
    refine ⟨hstyles, m, hm, by rw [hm_last]; rfl, fun key => ?_⟩
    rw [hstyles, hm_last, hr.getElem?_report hm]

end Answers

/-- Two matches of which the last one does not set a style that the first one sets. -/
theorem scan_styles_unset :
    let answer : Query → Unit → SynsetSet × Unit := fun q s => (Dictionary.empty.lexicon q, s)
    let first := ((Matcher.compile "a" "xxx" (some "lang=fr;mood=angry") "en").runWith answer ()).1
    let second := ((Matcher.compile "b" "yyy" (some "lang=en") "en").runWith answer ()).1
    let r := (addIfValid {} first).addIfValid second
    let found := ((r.scan (Text.ofWords ["xxx", "yyy"])).runWith answer ()).1
    r.Reachable ∧ found.templateIds = ["a", "b"] ∧ found.styles["lang"]? = some "en" ∧
      found.styles["mood"]? = some Style.wildcard := by
  intro answer first second r found
  have hr : r.Reachable := .addIfValid (.addIfValid .empty (.compiled answer () ..))
    (.compiled answer () ..)
  obtain ⟨_, _, _, _, hlast⟩ := scan_styles answer r (Text.ofWords ["xxx", "yyy"]) () hr
  have hreport : ((r.scanFrom (Text.ofWords ["xxx", "yyy"]) 2 0).runWith answer ()).1.getLast? =
      some (r.report second ⟨1, 1, ∅⟩) := by decide +kernel
  obtain ⟨hstyles, _⟩ := hlast _ hreport
  refine ⟨hr, by decide +kernel, ?_, ?_⟩
  · rw [show found.styles = _ from hstyles]
    decide +kernel
  · rw [show found.styles = _ from hstyles]
    decide +kernel

end Registry
end TokenPatterns
