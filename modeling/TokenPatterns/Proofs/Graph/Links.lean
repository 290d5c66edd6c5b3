import Mathlib.Data.List.Induction
import TokenPatterns.Proofs.Graph.Numbering

/-! The links of a graph, place by place.

Links are laid down token by token, from three numbers that move along: the size of the graph, the
last token and the last mandatory one. `targets_eq_laid` says which links that makes in the end,
for each place and in the order in which they are laid. -/
namespace TokenPatterns

namespace Link

/-- The targets of some links from a node. -/
def targetsFrom (id : Nat) (links : List Link) : List Nat :=
  (links.filter (·.source == id)).map (·.target)

@[simp] theorem targetsFrom_nil (id : Nat) : targetsFrom id [] = [] := rfl

@[simp] theorem targetsFrom_cons (id : Nat) (l : Link) (links : List Link) :
    targetsFrom id (l :: links) =
      if l.source = id then l.target :: targetsFrom id links else targetsFrom id links := by
  by_cases h : l.source = id <;> simp [targetsFrom, h]

@[simp] theorem targetsFrom_append (id : Nat) (links more : List Link) :
    targetsFrom id (links ++ more) = targetsFrom id links ++ targetsFrom id more := by
  simp [targetsFrom]

/-- The targets listed for a node are those of the links from it. -/
theorem targets_getElem?_eq {size id : Nat} (h : id < size) (links : List Link) :
    (targets size links)[id]? = some (targetsFrom id links) :=
  targets_getElem? h links

end Link

namespace Greedy
open Link (targetsFrom targetsFrom_nil targetsFrom_cons targetsFrom_append)

/-! ### The last mandatory token -/

/-- The last mandatory token of a pattern, or the root if it has none. -/
structure LastMandatory (marks : List Mark) (m : Nat) : Prop where
  le : m ≤ marks.length
  mark : markAt marks m = .once
  after : ∀ i ≤ marks.length, m < i → markAt marks i ≠ .once

theorem lastMandatory_nil : LastMandatory [] 0 :=
  ⟨Nat.le_refl 0, rfl, fun _ hi h => absurd (Nat.le_zero.mp hi) (by omega)⟩

/-- A mandatory token that is added becomes the last one. -/
theorem LastMandatory.append {marks : List Mark} {m : Nat} (h : LastMandatory marks m)
    (mark : Mark) :
    LastMandatory (marks ++ [mark]) (if mark = .once then marks.length + 1 else m) := by
  have hlen : (marks ++ [mark]).length = marks.length + 1 := by simp
  by_cases hm : mark = .once
  · rw [if_pos hm]
    refine ⟨by omega, by rw [markAt_length_add_one, hm], fun i hi hlt => ?_⟩
    omega
  · rw [if_neg hm]
    refine ⟨by have := h.le; omega, by rw [markAt_append_of_le h.le, h.mark], fun i hi hlt => ?_⟩
    by_cases hi' : i = marks.length + 1
    · rw [hi', markAt_length_add_one]
      exact hm
    · rw [markAt_append_of_le (by omega)]
      exact h.after i (by omega) hlt

/-- The frontier behind some tokens, in terms of the tokens. -/
theorem exists_advanceAll (marks : List Mark) : ∃ m, LastMandatory marks m ∧
    Frontier.start.advanceAll marks =
      ⟨tokenId (marks.length + 1), tokenId marks.length, tokenId m⟩ := by
  induction marks using List.reverseRecOn with
  | nil => exact ⟨0, lastMandatory_nil, rfl⟩
  | append_singleton marks mark ih =>
    obtain ⟨m, hm, hf⟩ := ih
    refine ⟨_, hm.append mark, ?_⟩
    have hsize : (if tokenId marks.length = 0 then tokenId (marks.length + 1) + 1
        else tokenId (marks.length + 1) + 3) = tokenId (marks.length + 2) := by
      unfold tokenId
      split <;> omega
    have hadvance : Frontier.start.advanceAll (marks ++ [mark]) =
        (Frontier.start.advanceAll marks).advance mark := by
      simp [Frontier.advanceAll]
    rw [hadvance, hf, Frontier.advance]
    simp only [hsize, List.length_append, List.length_singleton, Frontier.mk.injEq, true_and]
    split <;> rfl

theorem LastMandatory.unique {marks : List Mark} {m m' : Nat} (h : LastMandatory marks m)
    (h' : LastMandatory marks m') : m = m' := by
  have hle : ¬ m < m' := fun hlt => h.after m' h'.le hlt h'.mark
  have hge : ¬ m' < m := fun hlt => h'.after m h.le hlt h.mark
  omega

theorem LastMandatory.advanceAll {marks : List Mark} {m : Nat} (h : LastMandatory marks m) :
    Frontier.start.advanceAll marks =
      ⟨tokenId (marks.length + 1), tokenId marks.length, tokenId m⟩ := by
  obtain ⟨m', hm', hf⟩ := exists_advanceAll marks
  rw [hf, h.unique hm']

/-! ### Which tokens follow when a token is added -/

theorem follows_append_of_le {marks more : List Mark} {k j : Nat} (hj : j ≤ marks.length) :
    Follows (marks ++ more) k j ↔ Follows marks k j := by
  by_cases hk : k ≤ j
  · have hmarks : ∀ i ≤ j, markAt (marks ++ more) i = markAt marks i := fun i hi =>
      markAt_append_of_le (by omega)
    unfold Follows
    rw [hmarks k hk]
    refine or_congr_right (or_congr_right (and_congr_right fun _ => and_congr_right fun _ => ?_))
    exact forall₂_congr fun i hi => by rw [hmarks i (by omega)]
  · unfold Follows
    omega

/-- The last token follows the one before it, the last mandatory one, and itself if it may be
repeated. -/
theorem follows_length_add_one {marks : List Mark} {m : Nat} (hm : LastMandatory marks m)
    (mark : Mark) (k : Nat) :
    Follows (marks ++ [mark]) k (marks.length + 1) ↔
      (k = marks.length + 1 ∧ mark = .repeated) ∨ k = marks.length ∨
        (k = m ∧ m ≠ marks.length) := by
  have hmarks : ∀ i ≤ marks.length, markAt (marks ++ [mark]) i = markAt marks i := fun i hi =>
    markAt_append_of_le hi
  have hle := hm.le
  unfold Follows
  constructor
  · intro hfollows
    rcases hfollows with ⟨_, hrep, rfl⟩ | hk | ⟨hk, hlt, hopt⟩
    · exact .inl ⟨rfl, by rwa [markAt_length_add_one] at hrep⟩
    · exact .inr (.inl (by omega))
    · have hk : markAt marks k = .once := by
        rcases hk with rfl | hk
        · rfl
        · rwa [hmarks k (by omega)] at hk
      have hkm : ¬ k < m := fun h => hopt m (by omega) h (by rw [hmarks m hle, hm.mark])
      have hmk : ¬ m < k := fun h => hm.after k (by omega) h hk
      exact .inr (.inr ⟨by omega, by omega⟩)
  · intro hcases
    rcases hcases with ⟨rfl, hrep⟩ | rfl | ⟨rfl, hne⟩
    · exact .inl ⟨by omega, by rw [markAt_length_add_one, hrep], rfl⟩
    · exact .inr (.inl rfl)
    · refine .inr (.inr ⟨.inr (by rw [hmarks k hle, hm.mark]), by omega, fun i hi hlt => ?_⟩)
      rw [hmarks i (by omega)]
      exact hm.after i (by omega) hlt

theorem candidates_append {marks : List Mark} {m : Nat} (hm : LastMandatory marks m) (mark : Mark)
    (k : Nat) :
    candidates (marks ++ [mark]) ⟨k, 0⟩ = candidates marks ⟨k, 0⟩ ++
      if (k = marks.length + 1 ∧ mark = .repeated) ∨ k = marks.length ∨ (k = m ∧ m ≠ marks.length)
      then [marks.length + 1] else [] := by
  have hold : (List.range (marks.length + 1)).filter (Follows (marks ++ [mark]) k ·) =
      (List.range (marks.length + 1)).filter (Follows marks k ·) :=
    List.filter_congr fun j hj => by
      rw [List.mem_range] at hj
      exact decide_eq_decide.mpr (follows_append_of_le (by omega))
  simp only [candidates, List.length_append, List.length_singleton]
  rw [List.range_succ, List.filter_append, hold]
  simp only [List.filter_cons, List.filter_nil, decide_eq_true_eq, follows_length_add_one hm]

/-! ### The targets of a place -/

/-- The targets of the links from a place in the order in which they are laid. A skip is laid with
the next token, behind which only links past that token follow. -/
def laid (marks : List Mark) : Place → List Nat
  | ⟨k, 0⟩ => (candidates marks ⟨k, 0⟩).flatMap fun j =>
      if j = k + 1 ∧ 1 ≤ k then [tokenId j, 3 * k] else [tokenId j]
  | ⟨k, 1⟩ => if 1 ≤ k ∧ k < marks.length then [3 * k + 1, tokenId (k + 1)] else []
  | ⟨k, 2⟩ => if 1 ≤ k ∧ k < marks.length then [tokenId (k + 1)] else []
  | _ => []

theorem targetsFrom_token (k i j : Nat) :
    targetsFrom (tokenId k) [⟨tokenId i, j⟩] = if k = i then [j] else [] := by
  simp only [targetsFrom_cons, targetsFrom_nil, tokenId_inj, eq_comm]

/-- Of the links that come with the skips of a token, only one leads from a token: from the one
before to the first skip. -/
theorem targetsFrom_skipLinks (n k : Nat) :
    targetsFrom (tokenId k) (if tokenId n = 0 then [] else
      [⟨tokenId n, tokenId (n + 1) + 1⟩, ⟨tokenId (n + 1) + 1, tokenId (n + 1) + 2⟩,
        ⟨tokenId (n + 1) + 1, tokenId (n + 1)⟩, ⟨tokenId (n + 1) + 2, tokenId (n + 1)⟩]) =
      if k = n ∧ 1 ≤ k then [3 * k] else [] := by
  by_cases hn : n = 0
  · subst hn
    rw [if_pos (by simp), if_neg (by omega), targetsFrom_nil]
  · have hid : tokenId (n + 1) + 1 = 3 * n := by
      unfold tokenId
      omega
    have hfirst : tokenId (n + 1) + 1 ≠ tokenId k := by
      unfold tokenId
      omega
    have hsecond : tokenId (n + 1) + 2 ≠ tokenId k := by
      unfold tokenId
      omega
    rw [if_neg (by simpa using hn)]
    simp only [targetsFrom_cons, targetsFrom_nil, if_neg hfirst, if_neg hsecond, tokenId_inj]
    by_cases hk : n = k
    · rw [if_pos hk, if_pos (by omega), hid, hk]
    · rw [if_neg hk, if_neg (by omega)]

theorem targetsFrom_selfLink (mark : Mark) (n k : Nat) :
    targetsFrom (tokenId k) (if mark = .repeated then [⟨tokenId n, tokenId n⟩] else []) =
      if k = n ∧ mark = .repeated then [tokenId n] else [] := by
  by_cases h : mark = .repeated
  · simp only [h, if_true, targetsFrom_token, and_true]
  · simp only [h, if_false, and_false, targetsFrom_nil]

/-- A link past some tokens leads from the last mandatory token, unless that is the token right
before. -/
theorem targetsFrom_pastLink (n m k j : Nat) :
    targetsFrom (tokenId k) (if tokenId n = tokenId m then [] else [⟨tokenId m, j⟩]) =
      if k = m ∧ m ≠ n then [j] else [] := by
  by_cases h : n = m
  · rw [if_pos (by rw [h]), if_neg (by omega), targetsFrom_nil]
  · rw [if_neg (by simpa using h), targetsFrom_token]
    have hiff : k = m ↔ k = m ∧ m ≠ n := by omega
    exact if_congr hiff rfl rfl

/-- The links that come with a token, from the node of any token. -/
theorem targetsFrom_links_token {n m : Nat} (hm : m ≤ n) (mark : Mark) (k : Nat) :
    targetsFrom (tokenId k) ((⟨tokenId (n + 1), tokenId n, tokenId m⟩ : Frontier).links mark) =
      (if (k = n + 1 ∧ mark = .repeated) ∨ k = n ∨ (k = m ∧ m ≠ n) then [n + 1] else []).flatMap
        fun j => if j = k + 1 ∧ 1 ≤ k then [tokenId j, 3 * k] else [tokenId j] := by
  simp only [Frontier.links, targetsFrom_append, targetsFrom_token, targetsFrom_skipLinks,
    targetsFrom_selfLink, targetsFrom_pastLink]
  -- at most one of the numbers `n + 1`, `n` and `m` is `k`, unless the last two are equal
  by_cases hn : k = n
  · subst hn
    by_cases hk : 1 ≤ k <;> simp [hk] <;> exact fun h => h.symm
  · by_cases hs : k = n + 1 ∧ mark = .repeated
    · obtain ⟨rfl, rfl⟩ := hs
      simp
      omega
    · by_cases hp : k = m ∧ m ≠ n
      · obtain ⟨rfl, hne⟩ := hp
        have hnext : ¬ k = n + 1 := by omega
        simp [hne, hnext]
        omega
      · simp [hn, hs, hp]

/-- The links that come with a token, from the skips behind any token. -/
theorem targetsFrom_links_skip {n m k : Nat} (mark : Mark) (hk : 1 ≤ k) :
    let links := (⟨tokenId (n + 1), tokenId n, tokenId m⟩ : Frontier).links mark
    targetsFrom (3 * k) links = (if k = n then [3 * k + 1, tokenId (k + 1)] else []) ∧
      targetsFrom (3 * k + 1) links = if k = n then [tokenId (k + 1)] else [] := by
  intro links
  have htoken : ∀ i, tokenId i ≠ 3 * k ∧ tokenId i ≠ 3 * k + 1 := by
    unfold tokenId
    omega
  by_cases hn : n = 0
  · subst hn
    have hk0 : k ≠ 0 := by omega
    simp only [links, Frontier.links, targetsFrom_append]
    split_ifs <;> simp_all
  · have hfirst : tokenId (n + 1) + 1 = 3 * n := by
      unfold tokenId
      omega
    have hsecond : tokenId (n + 1) + 2 = 3 * n + 1 := by omega
    have hthird : 3 * n + 1 ≠ 3 * k := by omega
    have hfourth : 3 * n ≠ 3 * k + 1 := by omega
    simp only [links, Frontier.links, targetsFrom_append, hfirst, hsecond]
    by_cases hkn : k = n
    · subst hkn
      split_ifs <;> simp_all
    · have hkn' : 3 * n ≠ 3 * k ∧ 3 * n + 1 ≠ 3 * k + 1 := by omega
      split_ifs <;> simp_all

/-- The links of a pattern from each place are those that `laid` lists. -/
theorem targets_eq_laid (marks : List Mark) (p : Place)
    (hp : p.passed = 0 ∨ 1 ≤ p.token ∧ p.passed ≤ 2) :
    targetsFrom p.id (Frontier.start.allLinks marks) = laid marks p := by
  induction marks using List.reverseRecOn with
  | nil =>
    rcases p with ⟨k, _ | _ | _ | h⟩
    · have hfollows : ¬ Follows [] k 0 := by
        unfold Follows
        omega
      simp [laid, candidates, Frontier.allLinks, hfollows]
    · simp [laid, Frontier.allLinks]
    · simp [laid, Frontier.allLinks]
    · simp at hp
  | append_singleton marks mark ih =>
    obtain ⟨m, hm, hf⟩ := exists_advanceAll marks
    rw [Frontier.allLinks_append, targetsFrom_append, ih, hf]
    simp only [Frontier.allLinks, List.append_nil]
    rcases p with ⟨k, _ | _ | _ | h⟩
    · simp only [laid, Place.id]
      rw [targetsFrom_links_token hm.le, candidates_append hm, List.flatMap_append]
    · have hp : 1 ≤ k := by simpa using hp
      simp only [laid, Place.id, Nat.add_zero, (targetsFrom_links_skip mark hp).1]
      by_cases hk : k = marks.length
      · subst hk
        simp [hp]
      · have hlt : k < marks.length + 1 ↔ k < marks.length := by omega
        simp [hp, hk, hlt]
    · have hp : 1 ≤ k := by simpa using hp
      simp only [laid, Place.id, (targetsFrom_links_skip mark hp).2]
      by_cases hk : k = marks.length
      · subst hk
        simp [hp]
      · have hlt : k < marks.length + 1 ↔ k < marks.length := by omega
        simp [hp, hk, hlt]
    · simp at hp

end Greedy
end TokenPatterns
