import TokenPatterns.Proofs.Graph.Tokens
import TokenPatterns.Proofs.Greedy.Stretch
import TokenPatterns.Proofs.Locality
import TokenPatterns.Proofs.Registry.Best

/-! Exact occurrences.

Where the tokens of a pattern are all mandatory and the text has them one behind another, a match
takes just these: before a mandatory token there is no choice, so no token of the text is passed over
(`run_exact`), and behind the last token there is nowhere to go on. Every other match covers as many
tokens as it counts at least (`matchCount_le_window`), which is why no registry prefers to such a match
one with as many tokens in a larger window. -/
namespace TokenPatterns

namespace Greedy

/-! ### Runs over mandatory tokens -/

section Exact

variable {items : List (Node × Mark)} (honce : ∀ mark ∈ items.map (·.2), mark = .once)
include honce

theorem markAt_of_once (k : Nat) : markAt (items.map (·.2)) k = .once := by
  cases k with
  | zero => rfl
  | succ k =>
    rw [markAt]
    cases hmark : (items.map (·.2))[k]? with
    | none => rfl
    | some mark => exact honce mark (List.mem_of_getElem? hmark)

theorem markAt_ne_repeated_of_once (k : Nat) : markAt (items.map (·.2)) k ≠ .repeated := by
  rw [markAt_of_once honce]
  decide

theorem mem_candidates_of_once {k j : Nat} (hk : k < items.length) :
    j ∈ candidates (items.map (·.2)) ⟨k, 0⟩ ↔ j = k + 1 :=
  mem_candidates_of_mandatory (by rwa [List.length_map]) (markAt_ne_repeated_of_once honce k)
    (markAt_of_once honce (k + 1))

/-- The tokens of a pattern are taken one behind another where each accepts its position. -/
theorem run_exact {accepts : Nat → Nat → Bool} {n i remaining : Nat} (hn : n ≤ items.length)
    (hremaining : n ≤ remaining) (haccepts : ∀ k < n, accepts (k + 1) (i + k) = true) :
    ∃ moves, run items accepts start i remaining =
        moves ++ run items accepts ⟨n, 0⟩ (i + n) (remaining - n) ∧
      Stretch 0 n i (i + n) moves := by
  induction n with
  | zero => exact ⟨[], rfl, .nil 0 i⟩
  | succ n ih =>
    obtain ⟨moves, hrun, hstretch⟩ := ih (Nat.le_of_succ_le hn) (Nat.le_of_succ_le hremaining)
      fun k hk => haccepts k (Nat.lt_succ_of_lt hk)
    have hstep : step items (accepts · (i + n)) ⟨n, 0⟩ = some ⟨n + 1, 0⟩ :=
      step_of_sole (fun _ => mem_candidates_of_once honce hn) (haccepts n (Nat.lt_succ_self n))
    have htake : Stretch (0 + n) 1 (i + n) (i + (n + 1)) [⟨⟨n + 1, 0⟩, i + n⟩] := by
      rw [Nat.zero_add]
      exact .take n (i + n)
    refine ⟨moves ++ [⟨⟨n + 1, 0⟩, i + n⟩], ?_, hstretch.append htake⟩
    rw [hrun, show remaining - n = remaining - (n + 1) + 1 by omega, run_of_step hstep,
      List.append_assoc]
    rfl

/-- A match of tokens that stand one behind another covers just them. -/
theorem outcome_exact {text : Text} {accepts : Nat → Nat → Bool} {i remaining : Nat}
    (hne : items ≠ []) (hremaining : items.length ≤ remaining)
    (haccepts : ∀ k < items.length, accepts (k + 1) (i + k) = true) :
    (outcome items text (run items accepts start i remaining)).matchCount = items.length ∧
      (outcome items text (run items accepts start i remaining)).window = items.length := by
  obtain ⟨moves, hrun, hstretch⟩ := run_exact honce (Nat.le_refl _) hremaining haccepts
  rw [hrun, run_of_length (markAt_ne_repeated_of_once honce _), List.append_nil]
  have hend : IsEnd (items.map (·.2)) (lastPlace start moves) := by
    have hlength : (items.map (·.2)).length = items.length := List.length_map _
    rw [show start = ⟨0, 0⟩ from rfl, hstretch.last, Nat.zero_add, ← hlength]
    exact isEnd_length (hlength ▸ List.length_pos_iff.mpr hne) (markAt_of_once honce _)
  rw [outcome_of_isEnd hend]
  exact ⟨hstretch.count, by rw [hstretch.length, Nat.add_sub_cancel_left]⟩

end Exact
end Greedy

namespace Matcher

/-- A match covers at least the tokens that it counts. -/
theorem matchCount_le_window (lexicon : Lexicon) (m : Matcher) (text : Text) (first stop : Nat) :
    ((m.matchAt text first stop).run lexicon).matchCount ≤
      ((m.matchAt text first stop).run lexicon).window := by
  rw [run_matchAt, Graph.run_matchAt, Graph.outcome]
  split
  · exact List.countP_le_length
  · exact Nat.le_refl 0

/-- An exact occurrence of a pattern of mandatory tokens is matched as such. -/
theorem Reachable.matchAt_exact {m : Matcher} (h : m.Reachable) {lexicon : Lexicon} {text : Text}
    {first stop : Nat} (hne : tokensOf m.pattern ≠ [])
    (honce : ∀ t ∈ tokensOf m.pattern, t.mark = .once)
    (hstop : first + (tokensOf m.pattern).length ≤ min stop text.size)
    (haccepts : ∀ (k : Nat) id, m.graph.tokenStates[k]? = some id →
      (m.graph.accepts text id (first + k)).run (m.lexicon.getD lexicon) = true) :
    ((m.matchAt text first stop).run lexicon).matchCount = (tokensOf m.pattern).length ∧
      ((m.matchAt text first stop).run lexicon).window = (tokensOf m.pattern).length := by
  obtain ⟨items, hitems, hmarks, _, hgraph⟩ := h.exists_items
  have hlength : (tokensOf m.pattern).length = items.length := (length_of_marks_eq hmarks).symm
  have honce' : ∀ mark ∈ items.map (·.2), mark = .once := by
    rw [hmarks]
    intro mark hmark
    obtain ⟨t, ht, rfl⟩ := List.mem_map.mp hmark
    exact honce t ht
  have hne' : items ≠ [] := List.ne_nil_of_length_pos (hlength ▸ List.length_pos_iff.mpr hne)
  have hstates : ∀ k < items.length, m.graph.tokenStates[k]? = some (Greedy.tokenId (k + 1)) := by
    intro k hk
    rw [hgraph, Graph.tokenStates_ofNodes hitems, List.getElem?_map, List.getElem?_range hk]
    rfl
  rw [hlength] at hstop ⊢
  rw [run_matchAt, hgraph, Greedy.run_matchAt_ofNodes _ text hitems]
  refine Greedy.outcome_exact honce' hne' (by omega) fun k hk => ?_
  have hplace : (⟨k + 1, 0⟩ : Greedy.Place).Within items.length := ⟨hk, .inl rfl⟩
  rw [Greedy.accepts, ← haccepts k _ (hstates k hk), hgraph]
  exact (Greedy.run_accepts_place (m.lexicon.getD lexicon) text hplace (first + k)).symm

end Matcher

namespace Registry

/-! ### The winner -/

/-- Where a matcher of a registry matches, one of its matchers wins, and its match is the least. -/
theorem exists_least {lexicon : Lexicon} {r : Registry} (hr : r.Reachable) {text : Text}
    {first stop : Nat} {m : Matcher} (hm : m ∈ r.matchers)
    (hmatch : ((m.matchAt text first stop).run lexicon).isMatch = true) :
    let found (m : Matcher) := (m.matchAt text first stop).run lexicon
    ∃ (i : Nat) (winner : Matcher), r.matchers[i]? = some winner ∧
      (r.bestMatch text first stop).run lexicon = some (r.report winner (found winner)) ∧
      ∀ (j : Nat) other, r.matchers[j]? = some other → (found other).isMatch = true →
        (found winner).rank i ≤ (found other).rank j := by
  intro found
  let answer : Query → Unit → SynsetSet × Unit := fun q s => (lexicon q, s)
  have hanswer : ∀ q s, True → (answer q s).1 = lexicon q ∧ True := fun _ _ _ => ⟨rfl, trivial⟩
  have hresults : results answer text first stop r.matchers () = r.matchers.map found :=
    results_eq_map hanswer trivial text first stop r.matchers
  have hresult : ∀ {j other}, r.matchers[j]? = some other →
      (results answer text first stop r.matchers ())[j]? = some (found other) := fun hj => by
    rw [hresults, List.getElem?_map, hj, Option.map_some]
  have hbest : ((r.bestMatch text first stop).runWith answer ()).1 =
      (r.bestMatch text first stop).run lexicon := by rw [Inquiry.runWith_lexicon]
  cases hwinner : (r.bestMatch text first stop).run lexicon with
  | none =>
    obtain ⟨j, hj⟩ := List.getElem?_of_mem hm
    have hnone := (bestMatch_eq_none_iff hr).mp (hbest.trans hwinner) _
      (List.mem_of_getElem? (hresult hj))
    rw [show found m = _ from rfl, hmatch] at hnone
    cases hnone
  | some result =>
    obtain ⟨i, winner, outcome, hwins, rfl⟩ := exists_wins hr (hbest.trans hwinner)
    obtain rfl : found winner = outcome :=
      Option.some.inj ((hresult hwins.matcher).symm.trans hwins.outcome)
    exact ⟨i, winner, hwins.matcher, rfl, fun j other hj => hwins.least j _ (hresult hj)⟩

/-- Where a registry has a pattern of mandatory tokens whose tokens accept the positions of a range
one behind another, there is a best match, and it tells the match of one of the matchers: it counts
more tokens than the pattern has, or as many in a window of just as many. In that case no matcher that
was registered before the winner has such a match. -/
theorem bestMatch_exact (lexicon : Lexicon) {r : Registry} (hr : r.Reachable) {m : Matcher}
    (hm : m ∈ r.matchers) (hne : tokensOf m.pattern ≠ [])
    (honce : ∀ t ∈ tokensOf m.pattern, t.mark = .once) (text : Text) (first stop : Nat)
    (hstop : first + (tokensOf m.pattern).length ≤ min stop text.size)
    (haccepts : ∀ (k : Nat) id, m.graph.tokenStates[k]? = some id →
      (m.graph.accepts text id (first + k)).run (m.lexicon.getD lexicon) = true) :
    let n := (tokensOf m.pattern).length
    let found (m : Matcher) := (m.matchAt text first stop).run lexicon
    let attains (m : Matcher) := (found m).matchCount = n ∧ (found m).window = n
    ∃ (i : Nat) (winner : Matcher) (result : MatchResult), r.matchers[i]? = some winner ∧
      (r.bestMatch text first stop).run lexicon = some result ∧
      result = r.report winner (found winner) ∧ Reports result winner (found winner) ∧
      (n < result.matchCount ∨ (result.matchCount = n ∧ result.matchedTokens = n) ∧
        attains winner ∧ ∀ j < i, ∀ earlier, r.matchers[j]? = some earlier → ¬attains earlier) := by
  intro n found attains
  have hpos : 0 < n := List.length_pos_iff.mpr hne
  have hmatch : ∀ m', attains m' → (found m').isMatch = true := by
    intro m' hexact
    rw [PatternMatch.isMatch, hexact.1, decide_eq_true hpos, Bool.true_or]
  have hexact : attains m := (hr.matchers m hm).matchAt_exact hne honce hstop haccepts
  obtain ⟨i, winner, hi, hbest, hleast⟩ := exists_least hr hm (hmatch m hexact)
  refine ⟨i, winner, _, hi, hbest, rfl, reports_report .., ?_⟩
  obtain ⟨l, hl⟩ := List.getElem?_of_mem hm
  have hle : ¬(found m).rank l < (found winner).rank i := not_lt.mpr (hleast l m hl (hmatch m hexact))
  have hcover : (found winner).matchCount ≤ (found winner).window :=
    winner.matchCount_le_window lexicon text first stop
  rw [rank_lt_iff, hexact.1, hexact.2] at hle
  refine (Nat.lt_or_ge n (found winner).matchCount).imp_right fun hcount => ?_
  have hwinner : attains winner := ⟨by omega, by omega⟩
  refine ⟨hwinner, hwinner, fun j hj earlier hearlier hother => ?_⟩
  have hbefore : (found earlier).rank j < (found winner).rank i := by
    rw [rank_lt_iff, hother.1, hother.2, hwinner.1, hwinner.2]
    exact .inr ⟨rfl, .inr ⟨rfl, hj⟩⟩
  exact absurd (hleast j earlier hearlier (hmatch earlier hother)) (not_le.mpr hbefore)

/-- An exact occurrence of one pattern, where another one that was registered before matches as many
tokens with a token passed over. -/
theorem bestMatch_exact_loose :
    let lexicon := Dictionary.empty.lexicon
    let answer : Query → Unit → SynsetSet × Unit := fun q s => (lexicon q, s)
    let loose := ((Matcher.compile "loose" "xxx zzz" none "en").runWith answer ()).1
    let tight := ((Matcher.compile "tight" "xxx yyy" none "en").runWith answer ()).1
    let r := (addIfValid {} loose).addIfValid tight
    let text := Text.ofWords ["xxx", "yyy", "zzz"]
    (r.Reachable ∧ tight ∈ r.matchers ∧ (loose.matchAt text 0 3).run lexicon = ⟨2, 3, ∅⟩) ∧
      ∃ result, (r.bestMatch text 0 3).run lexicon = some result ∧ Reports result tight ⟨2, 2, ∅⟩ := by
  intro lexicon answer loose tight r text
  have hr : r.Reachable := .addIfValid (.addIfValid .empty (.compiled answer () ..))
    (.compiled answer () ..)
  have hmatchers : r.matchers = [loose, tight] := by
    rw [matchers_addIfValid (by decide +kernel), matchers_addIfValid (by decide +kernel)]
    rfl
  have hm : tight ∈ r.matchers := by
    rw [hmatchers]
    exact List.mem_cons_of_mem _ (List.mem_singleton_self tight)
  have htokens : tokensOf tight.pattern = [⟨.literal "xxx", .once⟩, ⟨.literal "yyy", .once⟩] := by
    decide +kernel
  have haccepts : ∀ (k : Nat) id, tight.graph.tokenStates[k]? = some id →
      (tight.graph.accepts text id (0 + k)).run (tight.lexicon.getD lexicon) = true := by
    have hstates : tight.graph.tokenStates = [1, 2] := by decide +kernel
    rintro (_ | _ | k) id hid <;> rw [hstates] at hid <;> cases hid <;> decide +kernel
  have hloose : (loose.matchAt text 0 3).run lexicon = ⟨2, 3, ∅⟩ := by decide +kernel
  have htight : (tight.matchAt text 0 3).run lexicon = ⟨2, 2, ∅⟩ := by decide +kernel
  obtain ⟨_, winner, result, hi, hbest, _, hreports, hnumbers⟩ := bestMatch_exact lexicon hr hm
    (by rw [htokens]; decide) (by rw [htokens]; decide) text 0 3 (by rw [htokens]; decide) haccepts
  refine ⟨⟨hr, hm, hloose⟩, result, hbest, ?_⟩
  rw [htokens] at hnumbers
  rcases List.mem_pair.mp (hmatchers ▸ List.mem_of_getElem? hi) with rfl | rfl
  · have hreports : Reports result loose ⟨2, 3, ∅⟩ := hloose ▸ hreports
    rcases hnumbers with hmore | ⟨⟨_, hwindow⟩, _⟩
    · rw [hreports.matchCount] at hmore
      exact absurd hmore (by decide)
    · rw [hreports.matchedTokens] at hwindow
      exact absurd hwindow (by decide)
  · exact htight ▸ hreports

end Registry
end TokenPatterns
