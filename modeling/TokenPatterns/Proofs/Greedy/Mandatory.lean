import TokenPatterns.Proofs.Greedy.Simulation
import TokenPatterns.Proofs.Greedy.Stretch
import TokenPatterns.Proofs.Greedy.Trail

/-! Patterns of mandatory tokens.

Mandatory tokens one behind another are taken on a trail (`runTo_trail`), and without one a match
does not come to the last of them (`token_lt_of_no_trail`). So a pattern of mandatory tokens alone
matches exactly where there is a trail from the start of its range. -/
namespace TokenPatterns

namespace Greedy

/-! ### Runs along a trail -/

variable {lexicon : Lexicon} {language : String} {tokens : List PatternToken} {text : Text}
  {stop : Nat}

theorem of_drop_eq_cons {α : Type} {as rest : List α} {k : Nat} {a : α} (h : as.drop k = a :: rest) :
    as[k]? = some a ∧ as.drop (k + 1) = rest := by
  refine ⟨by rw [← List.head?_drop, h, List.head?_cons], ?_⟩
  rw [← List.tail_drop, h, List.tail_cons]

theorem root_ne_repeated (marks : List Mark) : markAt marks 0 ≠ .repeated := by
  rw [markAt_zero]
  decide

theorem markAt_ne_repeated {k : Nat} {t : PatternToken} (htoken : tokens[k]? = some t)
    (ht : t.mark = .once) : markAt (tokens.map (·.mark)) (k + 1) ≠ .repeated := by
  rw [markAt_of_getElem? htoken, ht]
  decide

/-- The next mandatory token is taken where it is next accepted. -/
theorem runTo_next {k i q : Nat} {t : PatternToken} (hpos : 1 ≤ k) (htoken : tokens[k]? = some t)
    (ht : t.mark = .once) (hmark : markAt (tokens.map (·.mark)) k ≠ .repeated)
    (h : IsNext (t.accepts lexicon language text) stop i q) :
    ∃ moves, runTo lexicon language tokens text stop ⟨k, 0⟩ i =
        moves ++ runTo lexicon language tokens text stop ⟨k + 1, 0⟩ (q + 1) ∧
      Stretch k 1 i (q + 1) moves := by
  obtain ⟨d, rfl⟩ := Nat.exists_eq_add_of_le h.le
  have hnear := h.near
  obtain ⟨passes, hrun, hlength, hpasses, hrange⟩ :=
    runTo_gap htoken ht hmark hpos (h := 0) (by omega) h.lt h.accepted h.first
  refine ⟨passes ++ [⟨⟨k + 1, 0⟩, i + d⟩], ?_, Stretch.of_passes hlength hpasses hrange⟩
  rw [hrun, List.append_assoc]
  rfl

/-- A match that is to pass a mandatory token does not if no position is next for it. -/
theorem token_of_no_next {k i : Nat} {t : PatternToken} (htoken : tokens[k]? = some t)
    (ht : t.mark = .once) (hmark : markAt (tokens.map (·.mark)) k ≠ .repeated)
    (h : ∀ q, ¬IsNext (t.accepts lexicon language text) stop i q) :
    ∀ m ∈ runTo lexicon language tokens text stop ⟨k, 0⟩ i, m.place.token = k := by
  refine token_of_gap htoken ht hmark (Nat.zero_le 2) ?_
  intro x hx hnear hstop
  refine Bool.eq_false_iff.mpr fun haccepts => ?_
  obtain ⟨q, hq, hle⟩ := exists_isFirst hx hstop haccepts
  exact h q ⟨hq, Nat.le_trans hle hnear⟩

section Segment

variable {ts rest : List PatternToken} {k i : Nat} (hpos : 1 ≤ k)
  (hdrop : tokens.drop k = ts ++ rest) (hmark : markAt (tokens.map (·.mark)) k ≠ .repeated)
  (hts : ∀ t ∈ ts, t.mark = .once)
include hpos hdrop hmark hts

/-- The tokens of a trail are taken one after another. -/
theorem runTo_trail {j : Nat}
    (h : Trail (PatternToken.accepts lexicon language text) stop ts i j) :
    ∃ moves, runTo lexicon language tokens text stop ⟨k, 0⟩ i =
        moves ++ runTo lexicon language tokens text stop ⟨k + ts.length, 0⟩ j ∧
      Stretch k ts.length i j moves := by
  induction h generalizing k with
  | nil i => exact ⟨[], rfl, Stretch.nil k i⟩
  | @cons t ts i q j next _ ih =>
    obtain ⟨htoken, hdrop⟩ := of_drop_eq_cons hdrop
    have ht : t.mark = .once := hts t (List.mem_cons_self ..)
    obtain ⟨first, hfirst, hone⟩ := runTo_next hpos htoken ht hmark next
    obtain ⟨moves, hmoves, hmore⟩ := ih (Nat.le_add_left 1 k) hdrop (markAt_ne_repeated htoken ht)
      fun u hu => hts u (List.mem_cons_of_mem _ hu)
    rw [List.length_cons, Nat.add_comm ts.length 1, ← Nat.add_assoc]
    refine ⟨first ++ moves, ?_, hone.append hmore⟩
    rw [hfirst, hmoves, List.append_assoc]

/-- Without a trail a match does not come to the last of the tokens. -/
theorem token_lt_of_no_trail
    (h : ∀ j, ¬Trail (PatternToken.accepts lexicon language text) stop ts i j) :
    ∀ m ∈ runTo lexicon language tokens text stop ⟨k, 0⟩ i, m.place.token < k + ts.length := by
  induction ts generalizing k i with
  | nil => exact absurd (.nil i) (h i)
  | cons t ts ih =>
    obtain ⟨htoken, hdrop⟩ := of_drop_eq_cons hdrop
    have ht : t.mark = .once := hts t (List.mem_cons_self ..)
    rw [List.length_cons]
    intro m hm
    by_cases hex : ∃ q, IsNext (t.accepts lexicon language text) stop i q
    · obtain ⟨q, hq⟩ := hex
      obtain ⟨first, hfirst, hone⟩ := runTo_next hpos htoken ht hmark hq
      have hrest := ih (Nat.le_add_left 1 k) hdrop (markAt_ne_repeated htoken ht)
        (fun u hu => hts u (List.mem_cons_of_mem _ hu)) fun j htrail => h j (.cons hq htrail)
      rw [hfirst] at hm
      rcases List.mem_append.mp hm with hm | hm
      · -- these moves come to the first of the tokens only, and it is not the last one
        have hne : ts ≠ [] := fun hnil => h (q + 1) (hnil ▸ .cons hq (.nil _))
        have hlength := List.length_pos_iff.mpr hne
        have htokens := hone.tokens m hm
        omega
      · have hlt := hrest m hm
        omega
    · have heq := token_of_no_next htoken ht hmark (fun q hq => hex ⟨q, hq⟩) m hm
      omega

end Segment

section Opening

variable {ts rest : List PatternToken} {first : Nat} (htokens : tokens = ts ++ rest)
  (hts : ∀ t ∈ ts, t.mark = .once)
include htokens hts

theorem runTo_opening {j : Nat}
    (h : Opening (PatternToken.accepts lexicon language text) stop ts first j) :
    ∃ moves, runTo lexicon language tokens text stop start first =
        moves ++ runTo lexicon language tokens text stop ⟨ts.length, 0⟩ j ∧
      Stretch 0 ts.length first j moves := by
  cases ts with
  | nil =>
    obtain rfl : j = first := h
    exact ⟨[], rfl, Stretch.nil 0 j⟩
  | cons t ts =>
    obtain ⟨hfirst, haccepts, htrail⟩ := h
    obtain ⟨htoken, hdrop⟩ := of_drop_eq_cons (show tokens.drop 0 = t :: (ts ++ rest) from htokens)
    have ht : t.mark = .once := hts t (List.mem_cons_self ..)
    have hstep : stepAt lexicon language tokens text first start = some ⟨1, 0⟩ :=
      stepAt_next htoken ht (root_ne_repeated _) haccepts
    obtain ⟨moves, hmoves, hmore⟩ := runTo_trail (Nat.le_refl 1) hdrop
      (markAt_ne_repeated htoken ht) (fun u hu => hts u (List.mem_cons_of_mem _ hu)) htrail
    rw [List.length_cons, Nat.add_comm ts.length 1]
    refine ⟨⟨⟨1, 0⟩, first⟩ :: moves, ?_, (Stretch.take 0 first).append hmore⟩
    rw [runTo_of_step hfirst hstep, hmoves]
    rfl

theorem token_lt_of_no_opening
    (h : ∀ j, ¬Opening (PatternToken.accepts lexicon language text) stop ts first j) :
    ∀ m ∈ runTo lexicon language tokens text stop start first, m.place.token < ts.length := by
  cases ts with
  | nil => exact absurd rfl (h first)
  | cons t ts =>
    obtain ⟨htoken, hdrop⟩ := of_drop_eq_cons (show tokens.drop 0 = t :: (ts ++ rest) from htokens)
    have ht : t.mark = .once := hts t (List.mem_cons_self ..)
    intro m hm
    rw [List.length_cons]
    rcases Nat.lt_or_ge first stop with hfirst | hfirst
    · cases haccepts : t.accepts lexicon language text first with
      | false =>
        have hstep : stepAt lexicon language tokens text first start = none :=
          stepAt_gap htoken ht (root_ne_repeated _) haccepts
        rw [runTo_of_stuck hstep] at hm
        exact absurd hm List.not_mem_nil
      | true =>
        have hstep : stepAt lexicon language tokens text first start = some ⟨1, 0⟩ :=
          stepAt_next htoken ht (root_ne_repeated _) haccepts
        have hno : ∀ j, ¬Trail (PatternToken.accepts lexicon language text) stop ts (first + 1) j :=
          fun j htrail => h j ⟨hfirst, haccepts, htrail⟩
        have hne : ts ≠ [] := fun hnil => hno (first + 1) (hnil ▸ .nil _)
        have hlength := List.length_pos_iff.mpr hne
        rw [runTo_of_step hfirst hstep] at hm
        rcases List.mem_cons.mp hm with rfl | hm
        · show 1 < ts.length + 1
          omega
        · have hlt := token_lt_of_no_trail (Nat.le_refl 1) hdrop
            (markAt_ne_repeated htoken ht) (fun u hu => hts u (List.mem_cons_of_mem _ hu)) hno m hm
          omega
    · rw [runTo_of_le hfirst] at hm
      exact absurd hm List.not_mem_nil

end Opening

/-! ### Where matches end -/

theorem matchAt_eq_outcome {first : Nat} :
    matchAt lexicon language tokens text first stop =
      outcome (prepare lexicon language tokens) text
        (runTo lexicon language tokens text (min stop text.size) start first) := rfl

/-- Moves that do not come to a mandatory token are no match. -/
theorem outcome_of_token_lt {k : Nat} {moves : List Move} (hpos : 0 < k) (hk : k ≤ tokens.length)
    (hmark : markAt (tokens.map (·.mark)) k = .once) (h : ∀ m ∈ moves, m.place.token < k) :
    outcome (prepare lexicon language tokens) text moves = .none := by
  apply outcome_of_not_isEnd
  rw [marks_prepare]
  intro hend
  have hlt : (lastPlace start moves).token < k := lastPlace_token_lt hpos h
  refine hend.2.2 k ?_ hlt hmark
  rw [List.length_map]
  exact hk

/-- The last of some mandatory tokens. -/
theorem exists_last {ts : List PatternToken} (hne : ts ≠ []) (hts : ∀ t ∈ ts, t.mark = .once) :
    ∃ k t, ts[k]? = some t ∧ t.mark = .once ∧ ts.length = k + 1 := by
  obtain ⟨init, t, rfl⟩ := (List.eq_nil_or_concat' ts).resolve_left hne
  refine ⟨init.length, t, ?_, hts t (List.mem_append_right _ (List.mem_singleton_self t)), ?_⟩
  · rw [List.getElem?_append_right (Nat.le_refl _), Nat.sub_self, List.getElem?_cons_zero]
  · rw [List.length_append, List.length_singleton]

/-- The last of some mandatory tokens of a pattern. -/
theorem markAt_mandatory {first ts rest : List PatternToken} (htokens : tokens = first ++ (ts ++ rest))
    (hne : ts ≠ []) (hts : ∀ t ∈ ts, t.mark = .once) :
    markAt (tokens.map (·.mark)) (first.length + ts.length) = .once := by
  obtain ⟨k, t, htoken, ht, hlength⟩ := exists_last hne hts
  have hget : tokens[first.length + k]? = some t := by
    rw [htokens, List.getElem?_append_right (Nat.le_add_right _ k), Nat.add_sub_cancel_left,
      List.getElem?_append_left (by omega)]
    exact htoken
  rw [hlength, ← Nat.add_assoc, markAt_of_getElem? hget, ht]

section Last

variable {first ts : List PatternToken} (htokens : tokens = first ++ ts) (hne : ts ≠ [])
  (hts : ∀ t ∈ ts, t.mark = .once)
include htokens hne hts

theorem markAt_last : markAt (tokens.map (·.mark)) tokens.length = .once := by
  have htokens' : tokens = first ++ (ts ++ []) := by rw [List.append_nil, htokens]
  have hmark := markAt_mandatory htokens' hne hts
  rwa [← List.length_append, ← htokens] at hmark

/-- A match may end behind a mandatory token at the end of the pattern. -/
theorem isEnd_last : IsEnd (tokens.map (·.mark)) ⟨tokens.length, 0⟩ := by
  have hpos : 1 ≤ tokens.length := by
    rw [htokens, List.length_append]
    have hlength := List.length_pos_iff.mpr hne
    omega
  have hlength : (tokens.map (·.mark)).length = tokens.length := List.length_map _
  have hend : IsEnd (tokens.map (·.mark)) ⟨(tokens.map (·.mark)).length, 0⟩ :=
    isEnd_length (by rwa [hlength]) (by rw [hlength]; exact markAt_last htokens hne hts)
  rwa [hlength] at hend

/-- There is nowhere to go on behind a mandatory token at the end of the pattern. -/
theorem runTo_last (i : Nat) :
    runTo lexicon language tokens text stop ⟨tokens.length, 0⟩ i = [] := by
  have hlength : (prepare lexicon language tokens).length = tokens.length := length_prepare
  have hmark : markAt ((prepare lexicon language tokens).map (·.2))
      (prepare lexicon language tokens).length ≠ .repeated := by
    rw [marks_prepare, hlength, markAt_last htokens hne hts]
    decide
  have hrun := run_of_length hmark (accepts lexicon text (prepare lexicon language tokens)) i (stop - i)
  rwa [hlength] at hrun

end Last

/-- What a stretch up to the last token of a pattern gives. -/
theorem outcome_of_stretch {n i j : Nat} {moves : List Move} (h : Stretch 0 n i j moves)
    (hend : IsEnd (tokens.map (·.mark)) ⟨n, 0⟩) :
    let found := outcome (prepare lexicon language tokens) text moves
    found.isMatch = true ∧ found.matchCount = n ∧ found.window = j - i := by
  intro found
  have hplace : lastPlace start moves = ⟨n, 0⟩ := by
    rw [show start = ⟨0, 0⟩ from rfl, h.last, Nat.zero_add]
  have hisEnd : IsEnd ((prepare lexicon language tokens).map (·.2)) (lastPlace start moves) := by
    rw [marks_prepare, hplace]
    exact hend
  refine ⟨isMatch_outcome.mpr hisEnd, ?_⟩
  rw [show found = _ from outcome_of_isEnd hisEnd]
  exact ⟨h.count, h.length⟩

/-- Without the trail of its first tokens, all mandatory, a pattern does not match. -/
theorem outcome_of_no_opening {ts rest : List PatternToken} {first : Nat}
    (htokens : tokens = ts ++ rest) (hts : ∀ t ∈ ts, t.mark = .once)
    (h : ∀ j, ¬Opening (PatternToken.accepts lexicon language text) stop ts first j) :
    outcome (prepare lexicon language tokens) text
      (runTo lexicon language tokens text stop start first) = .none := by
  have hne : ts ≠ [] := fun hnil => h first (by rw [hnil]; rfl)
  have hmark := markAt_mandatory (show tokens = [] ++ (ts ++ rest) from htokens) hne hts
  rw [List.length_nil, Nat.zero_add] at hmark
  have hle : ts.length ≤ tokens.length := by
    rw [htokens, List.length_append]
    exact Nat.le_add_right ..
  exact outcome_of_token_lt (List.length_pos_iff.mpr hne) hle hmark
    (token_lt_of_no_opening htokens hts h)

end Greedy

namespace Matcher

/-- A pattern of mandatory tokens matches where its first token accepts the first position of the
range and each further one accepts one of the three positions behind the token before it; it takes
the first of them. So it always matches where its tokens stand one behind another. -/
theorem matchAt_mandatory (lexicon : Lexicon) (id pattern : String) (styles : Option String)
    (language : String) (text : Text) (first stop : Nat) (hne : tokensOf pattern ≠ [])
    (hmandatory : ∀ t ∈ tokensOf pattern, t.mark = .once) :
    let m := (compile id pattern styles language).run lexicon
    let found := (m.matchAt text first stop).run lexicon
    let accepts := PatternToken.accepts lexicon language text
    let n := (tokensOf pattern).length
    (found.isMatch = true ↔
      ∃ j, Greedy.Opening accepts (min stop text.size) (tokensOf pattern) first j) ∧
    (∀ j, Greedy.Opening accepts (min stop text.size) (tokensOf pattern) first j →
      found.matchCount = n ∧ found.window = j - first) ∧
    (first + n ≤ min stop text.size → Greedy.Contiguous accepts (tokensOf pattern) first →
      found.isMatch = true ∧ found.matchCount = n ∧ found.window = n) := by
  intro m found accepts n
  have hfound : found = _ := (run_matchAt_compile ..).trans Greedy.matchAt_eq_outcome
  have hmatch : ∀ j, Greedy.Opening accepts (min stop text.size) (tokensOf pattern) first j →
      found.isMatch = true ∧ found.matchCount = n ∧ found.window = j - first := by
    intro j hopening
    obtain ⟨moves, hmoves, hstretch⟩ := Greedy.runTo_opening (List.append_nil _).symm hmandatory
      hopening
    have hlast : ([] : List PatternToken) ++ tokensOf pattern = tokensOf pattern := rfl
    rw [Greedy.runTo_last hlast.symm hne hmandatory, List.append_nil] at hmoves
    rw [hfound, hmoves]
    exact Greedy.outcome_of_stretch hstretch (Greedy.isEnd_last hlast.symm hne hmandatory)
  refine ⟨⟨fun h => ?_, fun ⟨j, hj⟩ => (hmatch j hj).1⟩, fun j hj => (hmatch j hj).2,
    fun hstop hcontiguous => ?_⟩
  · by_contra hno
    have hnone := Greedy.outcome_of_no_opening (List.append_nil _).symm hmandatory
      fun j hj => hno ⟨j, hj⟩
    rw [hfound, hnone] at h
    exact absurd h Bool.false_ne_true
  · have hcount := hmatch _ (Greedy.Opening.of_contiguous hstop hcontiguous)
    rwa [Nat.add_sub_cancel_left] at hcount

/-- Three tokens with gaps of one and of two tokens between them. -/
theorem matchAt_mandatory_gaps :
    let pattern := "xxx yyy zzz"
    let lexicon := Dictionary.empty.lexicon
    let text := Text.ofWords ["xxx", "aaa", "yyy", "bbb", "ccc", "zzz", "zzz"]
    let m := (compile "1" pattern none "en").run lexicon
    let found := (m.matchAt text 0 9).run lexicon
    (tokensOf pattern ≠ [] ∧ ∀ t ∈ tokensOf pattern, t.mark = .once) ∧
      found.isMatch = true ∧ found.matchCount = 3 ∧ found.window = 6 := by
  intro pattern lexicon text m found
  have htokens : tokensOf pattern =
      [⟨.literal "xxx", .once⟩, ⟨.literal "yyy", .once⟩, ⟨.literal "zzz", .once⟩] := by
    decide +kernel
  have hne : tokensOf pattern ≠ [] := by
    rw [htokens]
    decide
  have hmandatory : ∀ t ∈ tokensOf pattern, t.mark = .once := by
    rw [htokens]
    decide
  obtain ⟨hiff, hcount, _⟩ :=
    matchAt_mandatory lexicon "1" pattern none "en" text 0 9 hne hmandatory
  have hopening : Greedy.Opening (PatternToken.accepts lexicon "en" text) (min 9 text.size)
      (tokensOf pattern) 0 6 := by
    rw [htokens]
    refine ⟨by decide, by decide, .cons (q := 2) ?_ (.cons (q := 5) ?_ (.nil 6))⟩
    · refine ⟨⟨by decide, by decide, by decide, fun x hx hlt => ?_⟩, by decide⟩
      obtain rfl : x = 1 := by omega
      decide
    · refine ⟨⟨by decide, by decide, by decide, fun x hx hlt => ?_⟩, by decide⟩
      rcases (by omega : x = 3 ∨ x = 4) with rfl | rfl <;> decide
  rw [htokens] at hcount
  exact ⟨⟨hne, hmandatory⟩, hiff.mpr ⟨6, hopening⟩, hcount 6 (htokens ▸ hopening)⟩

end Matcher
end TokenPatterns
