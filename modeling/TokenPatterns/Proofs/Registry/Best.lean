import Mathlib.Data.Prod.Lex
import Mathlib.Order.OrderDual
import TokenPatterns.Proofs.Registry.Reachable

/-! The best match of a registry.

The matchers of a registry are tried in order, and the best match so far stays or gives way to a
better one. `Leads` says what that comes to: the one that is left is the least of all matches by
their numbers of tokens, with more tokens first, then by their windows, and then by their places in
the registry (`leads_foldl`). But for the place that says nothing of the order of the matchers, so
that another order gives a match with the same numbers. -/
namespace TokenPatterns

/-- What two matches are compared by: the numbers of their tokens, more of them first, then their
windows, and then the places of their matchers. -/
def PatternMatch.rank (found : PatternMatch) (i : Nat) : Natᵒᵈ ×ₗ Nat ×ₗ Nat :=
  toLex (OrderDual.toDual found.matchCount, toLex (found.window, i))

namespace Registry

/-! ### The running best -/

theorem rank_lt_iff {found other : PatternMatch} {i j : Nat} :
    found.rank i < other.rank j ↔ other.matchCount < found.matchCount ∨
      found.matchCount = other.matchCount ∧ (found.window < other.window ∨
        found.window = other.window ∧ i < j) := by
  rw [PatternMatch.rank, PatternMatch.rank, Prod.Lex.toLex_lt_toLex, Prod.Lex.toLex_lt_toLex]
  rfl

/-- A match of a later matcher is better where it comes before the earlier one. -/
theorem better_iff {found old : PatternMatch} {i j : Nat} (hij : i < j) :
    better found old = true ↔ found.rank j < old.rank i := by
  rw [rank_lt_iff, better, Bool.or_eq_true, Bool.and_eq_true, decide_eq_true_eq, beq_iff_eq,
    decide_eq_true_eq]
  omega

/-- A result stands for the best of some matches: there is none, or it is one of them, and it comes
before all others. -/
inductive Leads (tried : List (Matcher × PatternMatch)) : Option (Matcher × PatternMatch) → Prop
  | unmatched : (∀ p ∈ tried, p.2.matchCount = 0) → Leads tried none
  | leader {i : Nat} {p : Matcher × PatternMatch} : tried[i]? = some p → p.2.matchCount ≠ 0 →
      (∀ (j : Nat) q, tried[j]? = some q → q.2.matchCount ≠ 0 → p.2.rank i ≤ q.2.rank j) →
      Leads tried (some p)

/-- The best match of some matchers is preferred to that of one more where it comes before it. -/
theorem Leads.append {tried : List (Matcher × PatternMatch)} {best : Option (Matcher × PatternMatch)}
    (h : Leads tried best) (m : Matcher) (found : PatternMatch) :
    Leads (tried ++ [(m, found)]) (prefer best m found) := by
  have hlast : (tried ++ [(m, found)])[tried.length]? = some (m, found) :=
    List.getElem?_concat_length
  have hcases : ∀ (j : Nat) q, (tried ++ [(m, found)])[j]? = some q →
      tried[j]? = some q ∨ j = tried.length ∧ q = (m, found) := by
    intro j q hj
    rcases Nat.lt_trichotomy j tried.length with hlt | rfl | hgt
    · exact .inl (by rwa [List.getElem?_append_left hlt] at hj)
    · exact .inr ⟨rfl, Option.some.inj (hj.symm.trans hlast)⟩
    · have hlength := (List.getElem?_eq_some_iff.mp hj).1
      rw [List.length_append, List.length_singleton] at hlength
      omega
  -- the new match is behind all others, so it takes the lead only if it is strictly better
  by_cases hzero : found.matchCount = 0
  · unfold Registry.prefer
    rw [if_pos hzero]
    cases h with
    | unmatched hall =>
      refine .unmatched fun q hq => ?_
      rcases List.mem_append.mp hq with hq | hq
      · exact hall q hq
      · rw [List.mem_singleton.mp hq]
        exact hzero
    | @leader i p hi hpos hle =>
      refine .leader ((List.getElem?_append_left (List.getElem?_eq_some_iff.mp hi).1).trans hi) hpos
        fun j q hj hq => ?_
      rcases hcases j q hj with hj | ⟨_, rfl⟩
      · exact hle j q hj hq
      · exact absurd hzero hq
  · unfold Registry.prefer
    rw [if_neg hzero]
    cases h with
    | unmatched hall =>
      refine .leader hlast hzero fun j q hj hq => ?_
      rcases hcases j q hj with hj | ⟨rfl, rfl⟩
      · exact absurd (hall q (List.mem_of_getElem? hj)) hq
      · exact le_rfl
    | @leader i p hi hpos hle =>
      have hlt : i < tried.length := (List.getElem?_eq_some_iff.mp hi).1
      dsimp only
      by_cases hbetter : better found p.2 = true
      · have hbefore := (better_iff hlt).mp hbetter
        rw [if_pos hbetter]
        refine .leader hlast hzero fun j q hj hq => ?_
        rcases hcases j q hj with hj | ⟨rfl, rfl⟩
        · exact hbefore.le.trans (hle j q hj hq)
        · exact le_rfl
      · rw [if_neg hbetter]
        refine .leader ((List.getElem?_append_left hlt).trans hi) hpos fun j q hj hq => ?_
        rcases hcases j q hj with hj | ⟨rfl, rfl⟩
        · exact hle j q hj hq
        · exact not_lt.mp fun hbefore => hbetter ((better_iff hlt).mpr hbefore)

/-- The running best of some matches is the best of them. -/
theorem leads_foldl (tried : List (Matcher × PatternMatch)) :
    Leads tried (tried.foldl (fun best p => prefer best p.1 p.2) none) := by
  induction tried using List.reverseRecOn with
  | nil => exact .unmatched fun p hp => absurd hp List.not_mem_nil
  | append_singleton tried p ih =>
    rw [List.foldl_append]
    exact ih.append p.1 p.2

theorem Leads.mem {tried : List (Matcher × PatternMatch)} {p : Matcher × PatternMatch}
    (h : Leads tried (some p)) : p ∈ tried := by
  cases h with
  | leader hi _ _ => exact List.mem_of_getElem? hi

/-- The best of some matches has the same numbers in whatever order they are tried. -/
theorem Leads.perm {tried tried' : List (Matcher × PatternMatch)}
    {best best' : Option (Matcher × PatternMatch)} (h : Leads tried best) (h' : Leads tried' best')
    (hperm : tried'.Perm tried) :
    best.map (fun p => (p.2.matchCount, p.2.window)) =
      best'.map fun p => (p.2.matchCount, p.2.window) := by
  cases h with
  | unmatched hall =>
    cases h' with
    | unmatched _ => rfl
    | leader hi' hpos' _ =>
      exact absurd (hall _ (hperm.mem_iff.mp (List.mem_of_getElem? hi'))) hpos'
  | @leader i p hi hpos hle =>
    cases h' with
    | unmatched hall' =>
      exact absurd (hall' _ (hperm.mem_iff.mpr (List.mem_of_getElem? hi))) hpos
    | @leader i' p' hi' hpos' hle' =>
      obtain ⟨j', hj'⟩ := List.getElem?_of_mem (hperm.mem_iff.mp (List.mem_of_getElem? hi'))
      obtain ⟨j, hj⟩ := List.getElem?_of_mem (hperm.mem_iff.mpr (List.mem_of_getElem? hi))
      have hbefore := mt rank_lt_iff.mpr (hle j' p' hj' hpos').not_gt
      have hbefore' := mt rank_lt_iff.mpr (hle' j p hj hpos).not_gt
      have hcount : p.2.matchCount = p'.2.matchCount := by omega
      have hwindow : p.2.window = p'.2.window := by omega
      rw [Option.map_some, Option.map_some, hcount, hwindow]

/-! ### The best match under any answers -/

section Answers

variable {σ : Type} (answer : Query → σ → SynsetSet × σ) (text : Text) (first stop : Nat)

/-- What some matchers give, each asked in its turn. -/
def results (ms : List Matcher) (s : σ) : List PatternMatch :=
  ((ms.mapM fun m : Matcher => m.matchAt text first stop).runWith answer s).1

theorem results_cons (m : Matcher) (ms : List Matcher) (s : σ) :
    results answer text first stop (m :: ms) s =
      ((m.matchAt text first stop).runWith answer s).1 ::
        results answer text first stop ms ((m.matchAt text first stop).runWith answer s).2 := by
  rw [results, Inquiry.runWith_mapM_cons]
  rfl

/-- The best of some matchers is their running best. -/
theorem runWith_bestOf (ms : List Matcher) (best : Option (Matcher × PatternMatch)) (s : σ) :
    ((bestOf text first stop ms best).runWith answer s).1 =
      (ms.zip (results answer text first stop ms s)).foldl (fun best p => prefer best p.1 p.2)
        best := by
  induction ms generalizing best s with
  | nil => rfl
  | cons m ms ih =>
    rw [results_cons, List.zip_cons_cons, List.foldl_cons, bestOf, Inquiry.runWith_bind, ih]

theorem runWith_bestMatch (r : Registry) (s : σ) :
    ∃ best, Leads (r.matchers.zip (results answer text first stop r.matchers s)) best ∧
      ((r.bestMatch text first stop).runWith answer s).1 =
        best.map fun p => r.report p.1 p.2 := by
  refine ⟨_, leads_foldl _, ?_⟩
  rw [bestMatch, Inquiry.runWith_bind, Inquiry.runWith_pure, runWith_bestOf]

/-- Every match of a reachable registry counts a token. -/
theorem Reachable.isMatch_iff {r : Registry} (hr : r.Reachable) {s : σ} {found : PatternMatch}
    (h : found ∈ results answer text first stop r.matchers s) :
    found.isMatch = true ↔ found.matchCount ≠ 0 := by
  obtain ⟨i, hi⟩ := List.getElem?_of_mem h
  obtain ⟨m, s, hm, rfl⟩ := Inquiry.exists_of_getElem?_mapM answer _ hi
  exact Matcher.isMatch_iff answer s (hr.compiled m (List.mem_of_getElem? hm)) text first stop

end Answers

section Reachable

variable {σ : Type} {answer : Query → σ → SynsetSet × σ} {s : σ} {r : Registry} (hr : r.Reachable)
  {text : Text} {first stop : Nat} {leader : Option (Matcher × PatternMatch)}
  (hleads : Leads (r.matchers.zip (results answer text first stop r.matchers s)) leader)
include hr hleads

/-- There is no best match where no matcher matches. -/
theorem Leads.eq_none_iff :
    leader = none ↔
      ∀ found ∈ results answer text first stop r.matchers s, found.isMatch = false := by
  have hmatch : ∀ found ∈ results answer text first stop r.matchers s,
      found.isMatch = true ↔ found.matchCount ≠ 0 := fun found hfound =>
    hr.isMatch_iff answer text first stop hfound
  cases hleads with
  | unmatched hall =>
    refine iff_of_true rfl fun found hfound => ?_
    obtain ⟨i, hi⟩ := List.getElem?_of_mem hfound
    obtain ⟨m, _, hm, _⟩ := Inquiry.exists_of_getElem?_mapM answer _ hi
    have hmem : (m, found) ∈ r.matchers.zip (results answer text first stop r.matchers s) :=
      List.mem_of_getElem? (List.getElem?_zip_eq_some.mpr ⟨hm, hi⟩)
    exact Bool.eq_false_iff.mpr fun h => (hmatch found hfound).mp h (hall _ hmem)
  | @leader i p hi hpos _ =>
    refine iff_of_false (Option.some_ne_none p) fun hall => ?_
    have hfound := List.mem_of_getElem? (List.getElem?_zip_eq_some.mp hi).2
    exact absurd ((hmatch _ hfound).mpr hpos) (Bool.eq_false_iff.mp (hall _ hfound))

/-- The matcher with the best match is the least of those that match. -/
theorem Leads.least {p : Matcher × PatternMatch} (hp : leader = some p) :
    ∃ i : Nat, r.matchers[i]? = some p.1 ∧
      (results answer text first stop r.matchers s)[i]? = some p.2 ∧ p.2.isMatch = true ∧
      ∀ (j : Nat) other, (results answer text first stop r.matchers s)[j]? = some other →
        other.isMatch = true → p.2.rank i ≤ other.rank j := by
  have hmatch : ∀ found ∈ results answer text first stop r.matchers s,
      found.isMatch = true ↔ found.matchCount ≠ 0 := fun found hfound =>
    hr.isMatch_iff answer text first stop hfound
  cases hleads with
  | unmatched _ => cases hp
  | @leader i p' hi hpos hle =>
    obtain rfl := Option.some.inj hp
    obtain ⟨hm, hfound⟩ := List.getElem?_zip_eq_some.mp hi
    refine ⟨i, hm, hfound, (hmatch _ (List.mem_of_getElem? hfound)).mpr hpos, fun j other hj h => ?_⟩
    obtain ⟨m, _, hm, _⟩ := Inquiry.exists_of_getElem?_mapM answer _ hj
    exact hle j (m, other) (List.getElem?_zip_eq_some.mpr ⟨hm, hj⟩)
      ((hmatch other (List.mem_of_getElem? hj)).mp h)

end Reachable

/-- A result tells the identifier of a matcher, and the numbers and the variables of a match. -/
structure Reports (result : MatchResult) (m : Matcher) (found : PatternMatch) : Prop where
  templateId : result.templateId = m.id
  matchCount : result.matchCount = found.matchCount
  matchedTokens : result.matchedTokens = found.window
  captures : result.captures = found.captures

theorem reports_report (r : Registry) (m : Matcher) (found : PatternMatch) :
    Reports (r.report m found) m found := ⟨rfl, rfl, rfl, rfl⟩

/-- The matcher at a place of a registry wins with its match: this is the least of all matches. -/
structure Wins (r : Registry) (founds : List PatternMatch) (i : Nat) (m : Matcher)
    (found : PatternMatch) : Prop where
  matcher : r.matchers[i]? = some m
  outcome : founds[i]? = some found
  isMatch : found.isMatch = true
  least : ∀ (j : Nat) other, founds[j]? = some other → other.isMatch = true →
    found.rank i ≤ other.rank j

section Winner

variable {σ : Type} {answer : Query → σ → SynsetSet × σ} {s : σ} {r : Registry} (hr : r.Reachable)
  {text : Text} {first stop : Nat}
include hr

theorem bestMatch_eq_none_iff :
    ((r.bestMatch text first stop).runWith answer s).1 = none ↔
      ∀ found ∈ results answer text first stop r.matchers s, found.isMatch = false := by
  obtain ⟨leader, hleads, hbest⟩ := runWith_bestMatch answer text first stop r s
  rw [hbest, Option.map_eq_none_iff]
  exact hleads.eq_none_iff hr

/-- The best match is what the matcher reports that wins. -/
theorem exists_wins {result : MatchResult}
    (h : ((r.bestMatch text first stop).runWith answer s).1 = some result) :
    ∃ i m found, Wins r (results answer text first stop r.matchers s) i m found ∧
      result = r.report m found := by
  obtain ⟨leader, hleads, hbest⟩ := runWith_bestMatch answer text first stop r s
  obtain ⟨p, hp, rfl⟩ := Option.map_eq_some_iff.mp (hbest.symm.trans h)
  obtain ⟨i, hm, hfound, hmatch, hle⟩ := hleads.least hr hp
  exact ⟨i, p.1, p.2, ⟨hm, hfound, hmatch, hle⟩, rfl⟩

end Winner

/-- What matchers give when the answers depend on the questions alone. -/
theorem results_eq_map {σ : Type} {answer : Query → σ → SynsetSet × σ} {lexicon : Lexicon}
    {inv : σ → Prop} (h : ∀ q s, inv s → (answer q s).1 = lexicon q ∧ inv (answer q s).2) {s : σ}
    (hs : inv s) (text : Text) (first stop : Nat) (ms : List Matcher) :
    results answer text first stop ms s =
      ms.map fun m => (m.matchAt text first stop).run lexicon := by
  rw [results, (Inquiry.runWith_eq_run h _ hs).1, Inquiry.run_mapM]

/-- The best match is none where no matcher of the registry matches, and otherwise that of the
matcher that is least among those that match: by more tokens, then by a smaller window, then by
earlier registration. It tells the identifier of this matcher, and the numbers and the variables of
its match. Where the answers depend on the questions alone, another order of the matchers gives a
best match with the same numbers. -/
theorem bestMatch_least {σ : Type} (answer : Query → σ → SynsetSet × σ) (s : σ) (r : Registry)
    (hr : r.Reachable) (text : Text) (first stop : Nat) :
    let founds := results answer text first stop r.matchers s
    let best := ((r.bestMatch text first stop).runWith answer s).1
    (best = none ↔ ∀ found ∈ founds, found.isMatch = false) ∧
    (∀ result, best = some result → ∃ i m found, Wins r founds i m found ∧
      result = r.report m found ∧ Reports result m found) ∧
    ∀ (lexicon : Lexicon) (inv : σ → Prop),
      (∀ q s, inv s → (answer q s).1 = lexicon q ∧ inv (answer q s).2) →
      ∀ (r' : Registry) (s' : σ), r'.matchers.Perm r.matchers → inv s → inv s' →
        let found (m : Matcher) := (m.matchAt text first stop).run lexicon
        let best' := ((r'.bestMatch text first stop).runWith answer s').1
        founds = r.matchers.map found ∧
        best.map (fun x => (x.matchCount, x.matchedTokens)) =
          best'.map (fun x => (x.matchCount, x.matchedTokens)) ∧
        ∀ result result', best = some result → best' = some result' →
          ∃ m ∈ r.matchers, ∃ m' ∈ r.matchers,
            result = r.report m (found m) ∧ Reports result m (found m) ∧
            result' = r'.report m' (found m') ∧ Reports result' m' (found m') ∧
            (found m).matchCount = (found m').matchCount ∧
            (found m).window = (found m').window := by
  intro founds best
  obtain ⟨leader, hleads, hbest⟩ := runWith_bestMatch answer text first stop r s
  have hbest : best = leader.map fun p => r.report p.1 p.2 := hbest
  refine ⟨bestMatch_eq_none_iff hr, fun result hresult => ?_, ?_⟩
  · obtain ⟨i, m, found, hwins, rfl⟩ := exists_wins hr hresult
    exact ⟨i, m, found, hwins, rfl, reports_report ..⟩
  · intro lexicon inv hanswer r' s' hperm hs hs' found best'
    obtain ⟨leader', hleads', hbest'⟩ := runWith_bestMatch answer text first stop r' s'
    have hbest' : best' = leader'.map fun p => r'.report p.1 p.2 := hbest'
    have hfounds : founds = r.matchers.map found := results_eq_map hanswer hs ..
    have hfounds' : results answer text first stop r'.matchers s' = r'.matchers.map found :=
      results_eq_map hanswer hs' ..
    rw [show results answer text first stop r.matchers s = _ from hfounds,
      ← List.map_prod_left_eq_zip] at hleads
    rw [hfounds', ← List.map_prod_left_eq_zip] at hleads'
    refine ⟨hfounds, ?_, fun result result' hresult hresult' => ?_⟩
    · rw [hbest, hbest', Option.map_map, Option.map_map]
      exact hleads.perm hleads' (hperm.map _)
    · rw [hbest, Option.map_eq_some_iff] at hresult
      rw [hbest', Option.map_eq_some_iff] at hresult'
      obtain ⟨p, rfl, rfl⟩ := hresult
      obtain ⟨p', rfl, rfl⟩ := hresult'
      obtain ⟨m, hm, rfl⟩ := List.mem_map.mp hleads.mem
      obtain ⟨m', hm', rfl⟩ := List.mem_map.mp hleads'.mem
      obtain ⟨hcount, hwindow⟩ := Prod.mk.inj (Option.some.inj (hleads.perm hleads' (hperm.map _)))
      exact ⟨m, hm, m', hperm.mem_iff.mp hm', rfl, reports_report .., rfl, reports_report .., hcount,
        hwindow⟩

/-- Two matchers of which the second one has the better match, in both orders. -/
theorem bestMatch_least_pair :
    let answer : Query → Unit → SynsetSet × Unit := fun q s => (Dictionary.empty.lexicon q, s)
    let short := ((Matcher.compile "short" "xxx" none "en").runWith answer ()).1
    let long := ((Matcher.compile "long" "xxx $y" none "en").runWith answer ()).1
    let r := (addIfValid {} short).addIfValid long
    let r' := (addIfValid {} long).addIfValid short
    let text := Text.ofWords ["xxx", "yyy"]
    let best := ((r.bestMatch text 0 2).runWith answer ()).1
    let best' := ((r'.bestMatch text 0 2).runWith answer ()).1
    (r.Reachable ∧ r'.matchers.Perm r.matchers) ∧
      (∃ result, best = some result ∧ Reports result long ⟨2, 2, .ofList [("y", "yyy")]⟩) ∧
      best.map (fun x => (x.matchCount, x.matchedTokens)) =
        best'.map fun x => (x.matchCount, x.matchedTokens) := by
  intro answer short long r r' text best best'
  have hr : r.Reachable := .addIfValid (.addIfValid .empty (.compiled answer () ..))
    (.compiled answer () ..)
  have hshort : short.isValid = true := by decide +kernel
  have hlong : long.isValid = true := by decide +kernel
  have hmatchers : r.matchers = [short, long] := by
    rw [matchers_addIfValid hlong, matchers_addIfValid hshort]
    rfl
  have hperm : r'.matchers.Perm r.matchers := by
    rw [hmatchers, matchers_addIfValid hshort, matchers_addIfValid hlong]
    exact .swap ..
  have hfounds : results answer text 0 2 r.matchers () =
      [⟨1, 1, ∅⟩, ⟨2, 2, .ofList [("y", "yyy")]⟩] := by decide +kernel
  obtain ⟨hnone, hwinner, horder⟩ := bestMatch_least answer () r hr text 0 2
  obtain ⟨_, hnumbers, _⟩ := horder Dictionary.empty.lexicon (fun _ => True)
    (fun q s _ => ⟨rfl, trivial⟩) r' () hperm trivial trivial
  obtain ⟨result, hresult⟩ := Option.ne_none_iff_exists'.mp fun hbest =>
    absurd (hnone.mp hbest) (by rw [hfounds]; decide)
  obtain ⟨i, m, found, hwins, _, hreports⟩ := hwinner result hresult
  rw [hfounds] at hwins
  refine ⟨⟨hr, hperm⟩, ⟨result, hresult, ?_⟩, hnumbers⟩
  have hm := hmatchers ▸ hwins.matcher
  have hfound := hwins.outcome
  rcases i with _ | _ | i
  · cases hfound
    have hleast := hwins.least 1 _ rfl rfl
    exact absurd hleast (by decide)
  · cases hm
    cases hfound
    exact hreports
  · cases hm

end Registry
end TokenPatterns
