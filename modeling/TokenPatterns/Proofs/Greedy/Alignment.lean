import TokenPatterns.Registry
import TokenPatterns.Proofs.Greedy.Simulation

/-! Matches are alignments.

The takes of a match, each a token of the text with the token of the pattern that took it, line the
pattern up with the text: both run forward, no mandatory token is left out or taken twice, and what
is passed over between two takes are at most two tokens of the text in front of the very next token
of the pattern. The bounds on the numbers of a match follow from that (`run_aligned`). -/
namespace TokenPatterns

namespace Greedy

/-- A token of the text, by position, taken by a token of the pattern. -/
structure Take where
  token : Nat
  index : Nat
deriving DecidableEq

/-- What two takes have to do with each other when one comes right after the other. -/
structure Take.Next (marks : List Mark) (a b : Take) : Prop where
  later : a.index < b.index
  near : b.index ≤ a.index + 3
  gap : a.index + 1 < b.index → b.token = a.token + 1
  order : a.token ≤ b.token
  again : b.token = a.token → markAt marks a.token = .repeated
  between : ∀ i, a.token < i → i < b.token → markAt marks i ≠ .once

/-- A sequence of takes that lines up all of a pattern with some tokens of a range of the text. -/
structure Alignment (marks : List Mark) (accepts : Nat → Nat → Bool) (first stop : Nat)
    (takes : List Take) : Prop where
  tokens : ∀ t ∈ takes, 1 ≤ t.token ∧ t.token ≤ marks.length
  range : ∀ t ∈ takes, first ≤ t.index ∧ t.index < stop
  accepted : ∀ t ∈ takes, accepts t.token t.index = true
  chain : takes.IsChain (Take.Next marks)
  mandatory : ∀ k, 1 ≤ k → k ≤ marks.length → markAt marks k = .once →
    takes.countP (·.token = k) = 1

/-! ### Chains of takes -/

variable {marks : List Mark} {a : Take} {l : List Take}

/-- After a take its token and those before it are not taken again if they are mandatory. -/
theorem countP_of_le {k : Nat} (h : List.IsChain (Take.Next marks) (a :: l))
    (hk : markAt marks k = .once) (hle : k ≤ a.token) : l.countP (·.token = k) = 0 := by
  induction l generalizing a with
  | nil => rfl
  | cons b l ih =>
    obtain ⟨hab, hbl⟩ := List.isChain_cons_cons.mp h
    have hne : b.token ≠ k := fun hb => by
      have hagain := hab.again (by have := hab.order; omega)
      rw [show a.token = k by have := hab.order; omega, hk] at hagain
      exact absurd hagain (by decide)
    rw [List.countP_cons_of_neg (by simpa using hne), ih hbl (Nat.le_trans hle hab.order)]

/-- After a take every mandatory token up to that of the last take is taken once. -/
theorem countP_of_lt {k : Nat} (h : List.IsChain (Take.Next marks) (a :: l))
    (hk : markAt marks k = .once) (hlt : a.token < k) (hlast : k ≤ (l.getLastD a).token) :
    l.countP (·.token = k) = 1 := by
  induction l generalizing a with
  | nil => exact absurd hlast (by simpa using hlt)
  | cons b l ih =>
    obtain ⟨hab, hbl⟩ := List.isChain_cons_cons.mp h
    rw [List.getLastD_cons] at hlast
    rcases Nat.lt_trichotomy b.token k with hb | rfl | hb
    · rw [List.countP_cons_of_neg (by simpa using Nat.ne_of_lt hb)]
      exact ih hbl hb hlast
    · rw [List.countP_cons_of_pos (by simp), countP_of_le hbl hk (Nat.le_refl _)]
    · exact absurd hk (hab.between k hlt hb)

/-- Every take is at most three tokens of the text behind the one before. -/
theorem index_getLastD_le (h : List.IsChain (Take.Next marks) (a :: l)) :
    (l.getLastD a).index ≤ a.index + 3 * l.length := by
  induction l generalizing a with
  | nil => simp
  | cons b l ih =>
    obtain ⟨hab, hbl⟩ := List.isChain_cons_cons.mp h
    have hb := ih hbl
    have hnear := hab.near
    rw [List.getLastD_cons, List.length_cons]
    omega

/-! ### The takes of a run -/

/-- The takes among some moves. -/
def takes (moves : List Move) : List Take :=
  (moves.filter (·.place.passed = 0)).map fun m => ⟨m.place.token, m.index⟩

theorem length_takes (moves : List Move) :
    (takes moves).length = moves.countP (·.place.passed = 0) := by
  rw [takes, List.length_map, List.countP_eq_length_filter]

theorem takes_take (j index : Nat) (moves : List Move) :
    takes (⟨⟨j, 0⟩, index⟩ :: moves) = ⟨j, index⟩ :: takes moves := rfl

theorem takes_pass (k h index : Nat) (moves : List Move) :
    takes (⟨⟨k, h + 1⟩, index⟩ :: moves) = takes moves := rfl

theorem mem_takes {moves : List Move} {t : Take} :
    t ∈ takes moves ↔ (⟨⟨t.token, 0⟩, t.index⟩ : Move) ∈ moves := by
  rw [takes, List.mem_map]
  constructor
  · intro hmem
    obtain ⟨⟨⟨k, h⟩, i⟩, hm, rfl⟩ := hmem
    obtain ⟨hm, hpassed⟩ := List.mem_filter.mp hm
    obtain rfl : h = 0 := by simpa using hpassed
    exact hm
  · exact fun ht => ⟨_, List.mem_filter.mpr ⟨ht, by simp⟩, rfl⟩

/-- Moves that end right behind a token end with its take. -/
theorem getLast?_takes {p : Place} {moves : List Move} (hne : moves ≠ [])
    (h : (lastPlace p moves).passed = 0) :
    (takes moves).getLast? = moves.getLast?.map fun m => ⟨m.place.token, m.index⟩ := by
  obtain ⟨init, m, rfl⟩ := (List.eq_nil_or_concat' moves).resolve_left hne
  have hm : m.place.passed = 0 := by simpa [lastPlace] using h
  simp [takes, List.filter_append, hm]

variable {items : List (Node × Mark)} {accepts : Nat → Nat → Bool}

/-- Where a match may go on from a place is where the take before may be followed by another. -/
theorem next_of_mem_candidates {p : Place} {j : Nat} (hpassed : p.passed ≤ 2)
    (hj : j ∈ candidates marks p) (index : Nat) :
    Take.Next marks ⟨p.token, index⟩ ⟨j, index + p.passed + 1⟩ := by
  rcases p with ⟨k, _ | h⟩
  · obtain ⟨_, hfollows⟩ := mem_candidates.mp hj
    refine ⟨by simp, by simp, fun hgap => absurd hgap (by simp), hfollows.le.1, fun he => ?_,
      fun i hki hij => ?_⟩
    · rcases hfollows with ⟨_, hmark, _⟩ | hnext | ⟨_, hfar, _⟩
      · exact hmark
      · exact absurd (he.symm.trans hnext) (by simp)
      · exact absurd (show j = k from he) (by omega)
    · rcases hfollows with ⟨_, _, rfl⟩ | rfl | ⟨_, _, hbetween⟩
      · exact absurd (Nat.lt_trans hki hij) (Nat.lt_irrefl _)
      · exact absurd (show i < k + 1 from hij) (by have : k < i := hki; omega)
      · exact hbetween i hij hki
  · obtain ⟨_, rfl⟩ := mem_candidates_passed.mp hj
    have hpassed : h + 1 ≤ 2 := hpassed
    refine ⟨?_, ?_, fun _ => rfl, Nat.le_succ k, fun he => absurd he (Nat.succ_ne_self k),
      fun i hki hij => absurd (show i < k + 1 from hij) (by have : k < i := hki; omega)⟩
    · show index < index + (h + 1) + 1
      omega
    · show index + (h + 1) + 1 ≤ index + 3
      omega

/-- The takes of a run go on from the take before it. -/
theorem isChain_takes_run {p : Place} (hp : p.Within items.length) (index remaining : Nat) :
    List.IsChain (Take.Next (items.map (·.2)))
      (⟨p.token, index⟩ :: takes (run items accepts p (index + p.passed + 1) remaining)) := by
  have hpassed : p.passed ≤ 2 := by
    rcases hp.2 with h | h <;> omega
  induction remaining generalizing p index with
  | zero => exact List.IsChain.singleton _
  | succ remaining ih =>
    cases hstep : step items (accepts · (index + p.passed + 1)) p with
    | none =>
      rw [run_of_stuck hstep]
      exact List.IsChain.singleton _
    | some q =>
      have hq := (step_within hstep).1
      rw [run_of_step hstep]
      rcases step_cases hstep with ⟨j, rfl, hj, _, _⟩ | ⟨rfl, hpass, _⟩
      · rw [takes_take]
        exact List.isChain_cons_cons.mpr
          ⟨next_of_mem_candidates hpassed hj index, ih hq _ (Nat.zero_le 2)⟩
      · rw [takes_pass]
        exact ih hq index hpass.2.2

/-! ### Matches -/

/-- The first move of a match takes a token: nothing is passed over before it. -/
theorem run_start_cases (items : List (Node × Mark)) (accepts : Nat → Nat → Bool)
    (first remaining : Nat) :
    run items accepts start first remaining = [] ∨
      ∃ j rest, remaining = rest + 1 ∧ j ∈ candidates (items.map (·.2)) start ∧
        run items accepts start first remaining =
          ⟨⟨j, 0⟩, first⟩ :: run items accepts ⟨j, 0⟩ (first + 1) rest := by
  cases remaining with
  | zero => exact .inl rfl
  | succ rest =>
    cases hstep : step items (accepts · first) start with
    | none => exact .inl (run_of_stuck hstep)
    | some q =>
      rcases step_cases hstep with ⟨j, rfl, hj, _, _⟩ | ⟨_, hpass, _⟩
      · exact .inr ⟨j, rest, rfl, hj, run_of_step hstep⟩
      · exact absurd hpass.1 (Nat.not_succ_le_zero 0)

/-- The last move of a run takes the token at the end of its window. -/
theorem getLast?_index_run {first remaining : Nat} {moves : List Move}
    (hrun : run items accepts start first remaining = moves) (hne : moves ≠ []) :
    moves.getLast?.map (·.index) = some (first + moves.length - 1) := by
  have hpos : 0 < moves.length := List.length_pos_iff.mpr hne
  rw [← List.getLast?_map, ← hrun, index_run, hrun, List.getLast?_range', if_neg (by omega)]

/-- The takes of a match: they form a chain from the first token of the window to the last one. -/
theorem takes_of_isEnd {first remaining : Nat} {moves : List Move}
    (hrun : run items accepts start first remaining = moves)
    (hend : IsEnd (items.map (·.2)) (lastPlace start moves)) :
    ∃ j l, takes moves = ⟨j, first⟩ :: l ∧ j ∈ candidates (items.map (·.2)) start ∧
      List.IsChain (Take.Next (items.map (·.2))) (⟨j, first⟩ :: l) ∧
      l.getLastD ⟨j, first⟩ = ⟨(lastPlace start moves).token, first + moves.length - 1⟩ := by
  rcases run_start_cases items accepts first remaining with hnil | ⟨j, rest, _, hj, hcons⟩
  · rw [hrun] at hnil
    exact absurd (hnil ▸ hend) (not_isEnd_start _)
  · rw [hrun] at hcons
    have hne : moves ≠ [] := hcons ▸ List.cons_ne_nil _ _
    have hj' : (⟨j, 0⟩ : Place).Within items.length :=
      ⟨by simpa using (candidates_bounds hj).2.2, .inl rfl⟩
    have hlast := getLast?_takes hne hend.1
    have hindex := getLast?_index_run hrun hne
    refine ⟨j, takes (run items accepts ⟨j, 0⟩ (first + 1) rest), by rw [hcons, takes_take], hj,
      isChain_takes_run hj' first rest, ?_⟩
    rw [lastPlace]
    cases hm : moves.getLast? with
    | none => exact absurd (List.getLast?_eq_none_iff.mp hm) hne
    | some m =>
      rw [hm, Option.map_some] at hindex hlast
      rw [hcons, takes_take, List.getLast?_cons, Option.some.injEq, ← List.getLastD_eq_getLast?]
        at hlast
      rw [hlast, ← Option.some.inj hindex]
      rfl

/-- A run that is a match aligns the pattern with the tokens it takes. -/
theorem run_aligned {first stop : Nat} {moves : List Move}
    (hrun : run items accepts start first (stop - first) = moves)
    (hend : IsEnd (items.map (·.2)) (lastPlace start moves)) :
    Alignment (items.map (·.2)) accepts first stop (takes moves) := by
  obtain ⟨j, l, htakes, hj, hchain, hlast⟩ := takes_of_isEnd hrun hend
  have hlength : moves.length ≤ stop - first := hrun ▸ length_run_le ..
  refine ⟨fun t ht => ?_, fun t ht => ?_, fun t ht => ?_, htakes ▸ hchain, fun k hpos hk hmark => ?_⟩
  · have hwithin := run_within _ (hrun ▸ mem_takes.mp ht)
    exact ⟨hwithin.2, by simpa using hwithin.1.1⟩
  · obtain ⟨hle, hlt⟩ : first ≤ t.index ∧ t.index < first + (run items accepts start first
        (stop - first)).length := index_mem_run (hrun ▸ mem_takes.mp ht)
    rw [hrun] at hlt
    omega
  · exact accepts_of_mem_run (hrun ▸ mem_takes.mp ht) rfl
  · have hle : k ≤ (lastPlace start moves).token :=
      Nat.le_of_not_lt fun hlt => hend.2.2 k hk hlt hmark
    rw [htakes]
    rcases Nat.lt_trichotomy j k with hlt | rfl | hlt
    · rw [List.countP_cons_of_neg (by simpa using Nat.ne_of_lt hlt)]
      exact countP_of_lt hchain hmark hlt (by rw [hlast]; exact hle)
    · rw [List.countP_cons_of_pos (by simp), countP_of_le hchain hmark (Nat.le_refl _)]
    · -- the first take leaves out only tokens that may be left out
      have hnext := next_of_mem_candidates (Nat.zero_le 2) hj 0
      exact absurd hmark (hnext.between k hpos hlt)

/-- The takes of a match reach from the first token of its window to the last one, and its window
has room for up to two passed tokens behind each of them but the last. -/
theorem run_spans {first stop : Nat} {moves : List Move}
    (hrun : run items accepts start first (stop - first) = moves)
    (hend : IsEnd (items.map (·.2)) (lastPlace start moves)) :
    ((takes moves).head?.map (·.index) = some first ∧
      (takes moves).getLast?.map (·.index) = some (first + moves.length - 1)) ∧
    1 ≤ (takes moves).length ∧ (takes moves).length ≤ moves.length ∧
      moves.length + 2 ≤ 3 * (takes moves).length ∧ first + moves.length ≤ stop := by
  obtain ⟨j, l, htakes, _, hchain, hlast⟩ := takes_of_isEnd hrun hend
  have hlength : moves.length ≤ stop - first := hrun ▸ length_run_le ..
  have hcount : (takes moves).length ≤ moves.length := length_takes moves ▸ List.countP_le_length
  have hspread := index_getLastD_le hchain
  rw [hlast] at hspread
  rw [htakes, List.length_cons] at hcount ⊢
  refine ⟨⟨rfl, ?_⟩, by omega, hcount, ?_, by omega⟩
  · rw [List.getLast?_cons, ← List.getLastD_eq_getLast?, hlast]
    rfl
  · have : first + moves.length - 1 ≤ first + 3 * l.length := hspread
    omega

end Greedy

namespace Matcher

/-- What a matcher gives is no match at all, or there is an alignment of the pattern with tokens of
the range that has the numbers of the match; and then the match counts at least one token, in a
window that ends within the range. So no match is discarded for a count of zero. -/
theorem none_or_aligned (lexicon : Lexicon) (id pattern : String) (styles : Option String)
    (language : String) (text : Text) (first stop : Nat) :
    let m := (compile id pattern styles language).run lexicon
    let found := (m.matchAt text first stop).run lexicon
    let items := Greedy.prepare lexicon language (tokensOf pattern)
    (found = .none ∨ ∃ takes,
      Greedy.Alignment (items.map (·.2)) (Greedy.accepts lexicon text items) first
        (min stop text.size) takes ∧
      takes.length = found.matchCount ∧ takes.head?.map (·.index) = some first ∧
      takes.getLast?.map (·.index) = some (first + found.window - 1)) ∧
    (found.isMatch = true → 1 ≤ found.matchCount ∧ found.matchCount ≤ found.window ∧
      found.window + 2 ≤ 3 * found.matchCount ∧ first + found.window ≤ min stop text.size) ∧
    (Registry.prefer none m found).isSome = found.isMatch := by
  intro m found items
  let moves := Greedy.run items (Greedy.accepts lexicon text items) Greedy.start first
    (min stop text.size - first)
  have hfound : found = Greedy.outcome items text moves := run_matchAt_compile ..
  by_cases hend : Greedy.IsEnd (items.map (·.2)) (Greedy.lastPlace Greedy.start moves)
  · obtain ⟨⟨hhead, hlast⟩, hpos, hcount, hwindow, hwithin⟩ := Greedy.run_spans rfl hend
    have hmatch : found.isMatch = true := hfound ▸ Greedy.isMatch_outcome.mpr hend
    rw [Greedy.outcome_of_isEnd hend, ← Greedy.length_takes] at hfound
    rw [hmatch, hfound]
    refine ⟨.inr ⟨_, Greedy.run_aligned rfl hend, rfl, hhead, hlast⟩,
      fun _ => ⟨hpos, hcount, hwindow, hwithin⟩, ?_⟩
    rw [Registry.prefer, if_neg (Nat.ne_of_gt hpos)]
    rfl
  · rw [Greedy.outcome_of_not_isEnd hend] at hfound
    rw [hfound]
    exact ⟨.inl rfl, fun hnone => absurd hnone Bool.false_ne_true, rfl⟩

end Matcher
end TokenPatterns
