import Mathlib.Logic.Function.Iterate
import Mathlib.Order.Monotone.Basic
import TokenPatterns.Proofs.Greedy.Alignment
import TokenPatterns.Proofs.Locality
import TokenPatterns.Proofs.Registry.Best

/-! Scans.

A scan goes through a text from left to right: at each position where it stops it looks for the
best match of all that is left, and goes on behind that match, or at the next token if there is
none. `scanned_of_lt` is one such stop and `scanned_iterate` any number of them. What a scan finds
from a position on does not depend on the tokens before it (`scanned_drop`), as no match does. -/
namespace TokenPatterns

/-- Of maps laid over one another the last one that has a name gives its value. -/
theorem Bindings.getElem?_foldl_overlay {α : Type} (f : α → Bindings) (as : List α) (name : String) :
    (as.foldl (fun (b : Bindings) a => b.overlay (f a)) ∅)[name]? =
      (as.filterMap fun a => (f a)[name]?).getLast? := by
  induction as using List.reverseRecOn with
  | nil => simp
  | append_singleton as a ih =>
    rw [List.foldl_append, List.foldl_cons, List.foldl_nil, Bindings.getElem?_overlay, ih,
      List.filterMap_append, List.getLast?_append]
    cases ha : (f a)[name]? with
    | none => simp [ha]
    | some value => simp [ha]

namespace ScanResult

/-- A variable has the value of the last match that captures it. -/
theorem getElem?_captures_ofMatches (ms : List MatchResult) (label : String) :
    (ofMatches ms).captures[label]? = (ms.filterMap (·.captures[label]?)).getLast? :=
  Bindings.getElem?_foldl_overlay MatchResult.captures ms label

end ScanResult

/-- The window of a match has a token and ends within the range. -/
theorem Matcher.window_bounds {m : Matcher} (hm : m.graph.Compiled) {lexicon : Lexicon} {text : Text}
    {first stop : Nat} (h : ((m.matchAt text first stop).run lexicon).isMatch = true) :
    1 ≤ ((m.matchAt text first stop).run lexicon).window ∧
      first + ((m.matchAt text first stop).run lexicon).window ≤ min stop text.size := by
  obtain ⟨items, hitems, hgraph⟩ := hm
  rw [run_matchAt, hgraph, Greedy.run_matchAt_ofNodes _ text hitems] at h ⊢
  have hend := Greedy.isMatch_outcome.mp h
  obtain ⟨_, hpos, hcount, _, hstop⟩ := Greedy.run_spans rfl hend
  rw [Greedy.outcome_of_isEnd hend]
  exact ⟨Nat.le_trans hpos hcount, hstop⟩

namespace Registry

variable (lexicon : Lexicon) (r : Registry) (text : Text)

/-- The best match of all the tokens from a position on. -/
def bestAt (i : Nat) : Option MatchResult := (r.bestMatch text i text.size).run lexicon

/-- Where a scan goes on from a position. -/
def advance (i : Nat) : Nat := i + ((bestAt lexicon r text i).map (·.matchedTokens)).getD 1

/-- The matches of a scan from a position on. -/
def scanned (i : Nat) : List MatchResult := (r.scanFrom text (text.size - i) 0).run lexicon

theorem run_scan : (r.scan text).run lexicon = ScanResult.ofMatches (scanned lexicon r text 0) :=
  Inquiry.run_map ..

/-! ### One stop -/

variable {lexicon r text}

/-- A best match covers a token at least, and none behind the text. -/
theorem bestAt_bounds (hr : r.Reachable) {i : Nat} {found : MatchResult}
    (h : bestAt lexicon r text i = some found) :
    1 ≤ found.matchedTokens ∧ i + found.matchedTokens ≤ text.size := by
  let answer : Query → Unit → SynsetSet × Unit := fun q s => (lexicon q, s)
  have hanswer : ∀ q s, True → (answer q s).1 = lexicon q ∧ True := fun _ _ _ => ⟨rfl, trivial⟩
  obtain ⟨leader, hleads, hbest⟩ := runWith_bestMatch answer text i text.size r ()
  rw [(Inquiry.runWith_eq_run hanswer _ trivial).1] at hbest
  obtain ⟨p, hp, rfl⟩ := Option.map_eq_some_iff.mp (hbest.symm.trans h)
  obtain ⟨j, hm, hresult, hmatch, _⟩ := hleads.least hr hp
  rw [results_eq_map hanswer trivial, List.getElem?_map, hm] at hresult
  have hfound : (p.1.matchAt text i text.size).run lexicon = p.2 := Option.some.inj hresult
  rw [← hfound] at hmatch
  have hbounds := Matcher.window_bounds (hr.compiled p.1 (List.mem_of_getElem? hm)) hmatch
  rwa [hfound, Nat.min_self] at hbounds

/-- The tokens that a match covers are left out. -/
theorem scanFrom_covered {remaining covered : Nat} (h : covered ≤ remaining) :
    r.scanFrom text remaining covered = r.scanFrom text (remaining - covered) 0 := by
  induction covered generalizing remaining with
  | zero => rfl
  | succ covered ih =>
    obtain ⟨remaining, rfl⟩ := Nat.exists_eq_add_of_le' (Nat.one_le_of_lt h)
    rw [scanFrom, ih (Nat.le_of_succ_le_succ h), Nat.add_sub_add_right]

theorem scanned_of_le {i : Nat} (h : text.size ≤ i) : scanned lexicon r text i = [] := by
  rw [scanned, Nat.sub_eq_zero_of_le h]
  rfl

/-- At a position a scan finds the best match there, if any, and then what it finds where it goes
on. -/
theorem scanned_of_lt (hr : r.Reachable) {i : Nat} (hi : i < text.size) :
    scanned lexicon r text i =
      (bestAt lexicon r text i).toList ++ scanned lexicon r text (advance lexicon r text i) := by
  have hremaining : text.size - i = text.size - (i + 1) + 1 := by omega
  have hposition : text.size - (text.size - (i + 1) + 1) = i := by omega
  rw [scanned, hremaining, scanFrom, Inquiry.run_bind, hposition,
    show (r.bestMatch text i text.size).run lexicon = bestAt lexicon r text i from rfl, advance]
  cases hbest : bestAt lexicon r text i with
  | none => rfl
  | some found =>
    obtain ⟨hpos, hle⟩ := bestAt_bounds hr hbest
    have hrest : text.size - (i + 1) - (found.matchedTokens - 1) =
        text.size - (i + found.matchedTokens) := by omega
    dsimp only
    rw [Inquiry.run_bind, scanFrom_covered (by omega), hrest]
    rfl

theorem advance_bounds (hr : r.Reachable) {i : Nat} (hi : i < text.size) :
    i < advance lexicon r text i ∧ advance lexicon r text i ≤ text.size := by
  rw [advance]
  cases hbest : bestAt lexicon r text i with
  | none => exact ⟨Nat.lt_succ_self i, hi⟩
  | some found =>
    obtain ⟨hpos, hle⟩ := bestAt_bounds hr hbest
    exact ⟨Nat.lt_add_of_pos_right hpos, hle⟩

/-! ### All stops -/

/-- A scan comes to the end of the text. -/
theorem exists_iterate_advance (hr : r.Reachable) {i : Nat} (hi : i ≤ text.size) :
    ∃ n ≤ text.size - i, (advance lexicon r text)^[n] i = text.size ∧
      ∀ k < n, (advance lexicon r text)^[k] i < text.size := by
  -- by induction on what is left of the text, which every stop makes smaller
  induction hd : text.size - i using Nat.strong_induction_on generalizing i with
  | _ d ih =>
    rcases Nat.eq_or_lt_of_le hi with rfl | hlt
    · exact ⟨0, Nat.zero_le _, rfl, fun k hk => absurd hk (Nat.not_lt_zero k)⟩
    · obtain ⟨hadvance, hle⟩ : i < advance lexicon r text i ∧ advance lexicon r text i ≤ text.size :=
        advance_bounds hr hlt
      obtain ⟨n, hn, hend, hbefore⟩ := ih _ (by omega) hle rfl
      refine ⟨n + 1, by omega, hend, fun k hk => ?_⟩
      cases k with
      | zero => exact hlt
      | succ k => exact hbefore k (Nat.lt_of_succ_lt_succ hk)

/-- What a scan finds at its first stops, and from there on. -/
theorem scanned_iterate (hr : r.Reachable) {i n : Nat}
    (h : ∀ k < n, (advance lexicon r text)^[k] i < text.size) :
    scanned lexicon r text i =
      (List.range n).filterMap (fun k => bestAt lexicon r text ((advance lexicon r text)^[k] i)) ++
        scanned lexicon r text ((advance lexicon r text)^[n] i) := by
  induction n with
  | zero => rfl
  | succ n ih =>
    rw [ih fun k hk => h k (Nat.lt_succ_of_lt hk), scanned_of_lt hr (h n (Nat.lt_succ_self n)),
      List.range_succ, List.filterMap_append, Function.iterate_succ_apply', List.append_assoc,
      List.filterMap_cons, List.filterMap_nil]
    cases bestAt lexicon r text ((advance lexicon r text)^[n] i) <;> rfl

/-- A scan never goes back. -/
theorem iterate_advance_le {i j k : Nat} (h : j ≤ k) :
    (advance lexicon r text)^[j] i ≤ (advance lexicon r text)^[k] i :=
  monotone_nat_of_le_succ (f := fun k => (advance lexicon r text)^[k] i)
    (fun k => by
      rw [Function.iterate_succ_apply']
      exact Nat.le_add_right ..) h

/-! ### The rest of a text -/

theorem bestAt_drop (n i : Nat) : bestAt lexicon r (text.drop n) i = bestAt lexicon r text (n + i) := by
  have hfound : ∀ m : Matcher, (m.matchAt (text.drop n) i (text.drop n).size).run lexicon =
      (m.matchAt text (n + i) text.size).run lexicon := fun m =>
    (Matcher.run_matchAt_alike (text.alike_drop n i (text.size - (n + i))) (by omega)
      (by rw [text.size_drop]; omega)).symm
  rw [bestAt, bestAt, bestMatch, bestMatch, Inquiry.run_bind, Inquiry.run_bind, run_bestOf,
    run_bestOf]
  simp only [hfound]

theorem scanFrom_drop {n remaining : Nat} (h : remaining ≤ text.size - n) (covered : Nat) :
    (r.scanFrom (text.drop n) remaining covered).run lexicon =
      (r.scanFrom text remaining covered).run lexicon := by
  induction remaining generalizing covered with
  | zero => rfl
  | succ remaining ih =>
    have ih := ih (Nat.le_of_succ_le h)
    cases covered with
    | succ covered => exact ih covered
    | zero =>
      have hposition : n + (text.size - n - (remaining + 1)) = text.size - (remaining + 1) := by omega
      have hbest : bestAt lexicon r (text.drop n) (text.size - n - (remaining + 1)) =
          bestAt lexicon r text (n + (text.size - n - (remaining + 1))) := bestAt_drop n _
      rw [hposition, bestAt, bestAt, text.size_drop] at hbest
      rw [scanFrom, scanFrom, Inquiry.run_bind, Inquiry.run_bind, text.size_drop, hbest]
      cases (r.bestMatch text (text.size - (remaining + 1)) text.size).run lexicon with
      | none => exact ih 0
      | some found =>
        dsimp only
        rw [Inquiry.run_bind, Inquiry.run_bind, ih]

theorem scanned_drop (n : Nat) : scanned lexicon r (text.drop n) 0 = scanned lexicon r text n := by
  rw [scanned, text.size_drop, Nat.sub_zero]
  exact scanFrom_drop (Nat.le_refl _) 0

/-! ### Scans -/

/-- A scan moves a cursor over the text: from a position it goes on behind the best match there, or
to the next position if there is none. It comes to the end after at most as many stops as the text
has tokens; the matches that it finds on the way lie one behind another within the text; the scan
reports just these, and for each variable the value in the last of them that captures it. What it
finds from any stop on is what a scan of the rest of the text finds. -/
theorem scan_segments (lexicon : Lexicon) (r : Registry) (hr : r.Reachable) (text : Text) :
    let best := bestAt lexicon r text
    let cursor (k : Nat) := (advance lexicon r text)^[k] 0
    let winners (k : Nat) : List MatchResult := (List.range k).filterMap fun j => best (cursor j)
    let found := (r.scan text).run lexicon
    ∃ n ≤ text.size,
      (cursor n = text.size ∧ ∀ k < n, cursor k < text.size) ∧
      (∀ k < n, ∀ m, best (cursor k) = some m →
        1 ≤ m.matchedTokens ∧ cursor k + m.matchedTokens ≤ text.size ∧
          ∀ j, k < j → j ≤ n → cursor k + m.matchedTokens ≤ cursor j) ∧
      (found.templateIds = (winners n).map (·.templateId) ∧
        ∀ label : String, found.captures[label]? =
          ((winners n).filterMap (·.captures[label]?)).getLast?) ∧
      ∀ k ≤ n, found.templateIds = (winners k).map (·.templateId) ++
        ((r.scan (text.drop (cursor k))).run lexicon).templateIds := by
  intro best cursor winners found
  obtain ⟨n, hn, hend, hbefore⟩ :
      ∃ n ≤ text.size - 0, cursor n = text.size ∧ ∀ k < n, cursor k < text.size :=
    exists_iterate_advance hr (Nat.zero_le _)
  have hscanned : ∀ k ≤ n, scanned lexicon r text 0 =
      winners k ++ scanned lexicon r text (cursor k) := fun k hk =>
    scanned_iterate hr fun j hj => hbefore j (Nat.lt_of_lt_of_le hj hk)
  have hall : scanned lexicon r text 0 = winners n := by
    rw [hscanned n (Nat.le_refl n), hend, scanned_of_le (Nat.le_refl _), List.append_nil]
  refine ⟨n, hn, ⟨hend, hbefore⟩, fun k hk m hm => ?_, ⟨?_, fun label => ?_⟩, fun k hk => ?_⟩
  · obtain ⟨hpos, hle⟩ := bestAt_bounds hr hm
    refine ⟨hpos, hle, fun j hkj _ => ?_⟩
    have hnext : cursor (k + 1) = cursor k + m.matchedTokens := by
      rw [show cursor (k + 1) = advance lexicon r text (cursor k) from
        Function.iterate_succ_apply' .., advance, show bestAt lexicon r text (cursor k) = some m from hm]
      rfl
    rw [← hnext]
    exact iterate_advance_le hkj
  · rw [show found = _ from run_scan .., hall]
    rfl
  · rw [show found = _ from run_scan .., hall, ScanResult.getElem?_captures_ofMatches]
  · rw [show found = _ from run_scan .., run_scan, scanned_drop, hscanned k hk]
    exact List.map_append

/-- Two matches with tokens in front of them and between them. -/
theorem scan_segments_pair :
    let lexicon := Dictionary.empty.lexicon
    let answer : Query → Unit → SynsetSet × Unit := fun q s => (lexicon q, s)
    let greet := ((Matcher.compile "greet" "hello $who" none "en").runWith answer ()).1
    let leave := ((Matcher.compile "leave" "goodbye" none "en").runWith answer ()).1
    let r := (addIfValid {} greet).addIfValid leave
    let text := Text.ofWords ["well", "hello", "there", "and", "goodbye"]
    let cursor (k : Nat) := (advance lexicon r text)^[k] 0
    let found := (r.scan text).run lexicon
    r.Reachable ∧ found.templateIds = ["greet", "leave"] ∧
      ∃ n ≤ 5, cursor n = 5 ∧ found.captures["who"]? =
        (((List.range n).filterMap fun k => bestAt lexicon r text (cursor k)).filterMap
          (·.captures["who"]?)).getLast? := by
  intro lexicon answer greet leave r text cursor found
  have hr : r.Reachable := .addIfValid (.addIfValid .empty (.compiled answer () ..))
    (.compiled answer () ..)
  obtain ⟨n, hn, ⟨hend, _⟩, _, ⟨_, hcaptures⟩, _⟩ := scan_segments lexicon r hr text
  exact ⟨hr, by decide +kernel, n, hn, hend, hcaptures "who"⟩

end Registry
end TokenPatterns
