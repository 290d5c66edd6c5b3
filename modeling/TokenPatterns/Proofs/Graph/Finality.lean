import TokenPatterns.Proofs.Graph.Successors

/-! The states at which a match may end.

They are found with a worklist. Each link puts a node on the list at most once, so that the list is
empty after as many steps as there are links and one more; what is marked then is what can be
reached. For the graph of a pattern that is the last mandatory token and every token after it, and
nothing at all if no token is mandatory. -/
namespace TokenPatterns

namespace Worklist

variable {size : Nat} {links : List Link} {allowed : Nat → Bool} {w : Worklist}

/-- The nodes that may still be visited: those on the list, and those that the links from unmarked
nodes will put there. -/
def owed (links : List Link) (w : Worklist) : Nat :=
  w.pending.length + links.countP fun l => w.marked[l.source]? = some false

/-- Marking a node takes its links out of the account. -/
theorem countP_mark {marked : Array Bool} {id : Nat} (h : marked[id]? = some false)
    (links : List Link) :
    links.countP (fun l => marked[l.source]? = some false) =
      links.countP (·.source == id) +
        links.countP fun l => (marked.setIfInBounds id true)[l.source]? = some false := by
  have hlt : id < marked.size := (Array.getElem?_eq_some_iff.mp h).1
  induction links with
  | nil => rfl
  | cons l links ih =>
    simp only [List.countP_cons, ih]
    by_cases hid : id = l.source
    · subst hid
      simp only [h, Array.getElem?_setIfInBounds_self_of_lt hlt, beq_self_eq_true, decide_true,
        if_true, Option.some.injEq, Bool.true_eq_false, decide_false, Bool.false_eq_true, if_false]
      omega
    · have hid' : (l.source == id) = false := beq_false_of_ne fun he => hid he.symm
      simp only [Array.getElem?_setIfInBounds_ne hid, hid', Bool.false_eq_true, if_false]
      omega

/-- Every visit settles one debt at least. -/
theorem owed_step (hsize : w.marked.size = size) (hne : w.pending ≠ []) :
    (w.step (Link.targets size links) allowed).owed links + 1 ≤ w.owed links := by
  obtain ⟨pending, marked⟩ := w
  cases pending with
  | nil => exact absurd rfl hne
  | cons id pending =>
    by_cases h : allowed id ∧ marked[id]? = some false
    · have hlt : id < size := hsize ▸ (Array.getElem?_eq_some_iff.mp h.2).1
      have hle : ((Link.targetsFrom id links).filter (· != id)).length ≤
          links.countP (·.source == id) := by
        rw [List.countP_eq_length_filter, ← List.length_map (f := Link.target)]
        exact List.length_filter_le ..
      simp only [step, if_pos h, owed, Link.targets_getElem?_eq hlt, Option.getD_some,
        List.length_append, List.length_reverse, List.length_cons, countP_mark h.2]
      omega
    · simp only [step, if_neg h, owed, List.length_cons]
      omega

theorem size_step : (w.step (Link.targets size links) allowed).marked.size = w.marked.size := by
  unfold step
  split
  · rfl
  · split
    · exact Array.size_setIfInBounds
    · rfl

/-- With as many steps as are owed the list becomes empty. -/
theorem pending_steps {n : Nat} (hsize : w.marked.size = size) (h : w.owed links ≤ n) :
    (w.steps (Link.targets size links) allowed n).pending = [] := by
  induction n generalizing w with
  | zero =>
    have : w.pending.length = 0 := by
      unfold owed at h
      omega
    exact List.length_eq_zero_iff.mp this
  | succ n ih =>
    rw [steps]
    split
    · rename_i hempty
      exact List.isEmpty_iff.mp hempty
    · rename_i hne
      have hstep : (w.step (Link.targets size links) allowed).owed links + 1 ≤ w.owed links :=
        owed_step hsize fun he => hne (List.isEmpty_iff.mpr he)
      exact ih (size_step.trans hsize) (by omega)

/-- Once the list is empty, no step changes anything. -/
theorem steps_eq_of_le {successors : Array (List Nat)} {n k : Nat}
    (hdone : (w.steps successors allowed n).pending = []) (h : n ≤ k) :
    w.steps successors allowed k = w.steps successors allowed n := by
  induction n generalizing w k with
  | zero =>
    have hempty : w.pending.isEmpty = true := List.isEmpty_iff.mpr hdone
    cases k with
    | zero => rfl
    | succ k => exact if_pos hempty
  | succ n ih =>
    obtain ⟨k, rfl⟩ : ∃ i, k = i + 1 := ⟨k - 1, by omega⟩
    rw [steps] at hdone
    rw [steps, steps]
    split
    · rfl
    · next hne =>
      rw [if_neg hne] at hdone
      exact ih hdone (Nat.le_of_succ_le_succ h)

/-- What holds all the while that a list is worked off from a node: for a property `P` that links
to allowed nodes keep, nothing is marked or listed without it, and nothing is forgotten. -/
structure Explores (links : List Link) (allowed : Nat → Bool) (P : Nat → Prop) (size first : Nat)
    (w : Worklist) : Prop where
  bound : w.marked.size = size
  sound : ∀ id, w.marked[id]? = some true → P id
  listed : ∀ id ∈ w.pending, allowed id = true → P id
  seeded : allowed first = true → first < size → w.marked[first]? = some true ∨ first ∈ w.pending
  closed : ∀ id, w.marked[id]? = some true → ∀ t ∈ Link.targetsFrom id links, allowed t = true →
    t < size → w.marked[t]? = some true ∨ t ∈ w.pending

variable {P : Nat → Prop} {first : Nat}

theorem explores_start (hfirst : allowed first = true → P first) :
    Explores links allowed P size first (start size first) where
  bound := Array.size_replicate
  sound id h := by simp [start, Array.getElem?_replicate] at h
  listed id h := by rwa [List.mem_singleton.mp h]
  seeded _ _ := .inr (List.mem_singleton_self first)
  closed id h := by simp [start, Array.getElem?_replicate] at h

/-- A visit marks a node and lists its targets. -/
theorem Explores.visit {id : Nat} {pending : List Nat} {marked : Array Bool}
    (hP : ∀ id t, P id → t ∈ Link.targetsFrom id links → allowed t = true → P t)
    (h : Explores links allowed P size first ⟨id :: pending, marked⟩) (hallowed : allowed id = true)
    (hid : id < size) :
    Explores links allowed P size first
      ⟨((Link.targetsFrom id links).filter (· != id)).reverse ++ pending,
        marked.setIfInBounds id true⟩ := by
  obtain ⟨hbound, hsound, hlisted, hseeded, hclosed⟩ := h
  have hPid : P id := hlisted id (List.mem_cons_self ..) hallowed
  have hlt : id < marked.size := hbound ▸ hid
  have hset : ∀ i, (marked.setIfInBounds id true)[i]? = some true ↔
      i = id ∨ marked[i]? = some true := fun i => by
    by_cases hi : id = i
    · subst hi
      simp [hlt]
    · simp [Array.getElem?_setIfInBounds_ne hi, Ne.symm hi]
  -- what was marked stays marked, and the visited node itself is marked now
  have hlist : ∀ t, t ∈ ((Link.targetsFrom id links).filter (· != id)).reverse ++ pending ↔
      (t ∈ Link.targetsFrom id links ∧ t ≠ id) ∨ t ∈ pending := fun t => by
    rw [List.mem_append, List.mem_reverse, List.mem_filter, bne_iff_ne]
  have hkeep : ∀ t, marked[t]? = some true ∨ t ∈ id :: pending →
      (marked.setIfInBounds id true)[t]? = some true ∨
        t ∈ ((Link.targetsFrom id links).filter (· != id)).reverse ++ pending := fun t ht => by
    rw [hset, hlist]
    rcases ht with ht | ht
    · exact .inl (.inr ht)
    · exact (List.mem_cons.mp ht).imp .inl .inr
  refine ⟨by simpa using hbound, fun i hi => ?_, fun t ht hallowed => ?_,
    fun hallowed hfirst => hkeep first (hseeded hallowed hfirst), fun i hi t ht hallowed hlt => ?_⟩
  · rcases (hset i).mp hi with rfl | hi
    · exact hPid
    · exact hsound i hi
  · rcases (hlist t).mp ht with ht | ht
    · exact hP id t hPid ht.1 hallowed
    · exact hlisted t (List.mem_cons_of_mem _ ht) hallowed
  · rcases (hset i).mp hi with rfl | hi
    · by_cases hself : t = i
      · exact .inl ((hset t).mpr (.inl hself))
      · exact .inr ((hlist t).mpr (.inl ⟨ht, hself⟩))
    · exact hkeep t (hclosed i hi t ht hallowed hlt)

/-- A node is dropped only if it may not be marked or is marked already. -/
theorem Explores.drop {id : Nat} {pending : List Nat} {marked : Array Bool}
    (h : Explores links allowed P size first ⟨id :: pending, marked⟩)
    (hid : ¬(allowed id = true ∧ marked[id]? = some false)) :
    Explores links allowed P size first ⟨pending, marked⟩ := by
  obtain ⟨hbound, hsound, hlisted, hseeded, hclosed⟩ := h
  have hkeep : ∀ t, allowed t = true → t < size → marked[t]? = some true ∨ t ∈ id :: pending →
      marked[t]? = some true ∨ t ∈ pending := fun t hallowed hlt ht => by
    rcases ht with ht | ht
    · exact .inl ht
    · rcases List.mem_cons.mp ht with rfl | ht
      · obtain ⟨b, hb⟩ : ∃ b, marked[t]? = some b := ⟨_, Array.getElem?_eq_getElem (hbound ▸ hlt)⟩
        cases b with
        | true => exact .inl hb
        | false => exact absurd ⟨hallowed, hb⟩ hid
      · exact .inr ht
  exact ⟨hbound, hsound, fun t ht => hlisted t (List.mem_cons_of_mem _ ht),
    fun hallowed hlt => hkeep first hallowed hlt (hseeded hallowed hlt),
    fun i hi t ht hallowed hlt => hkeep t hallowed hlt (hclosed i hi t ht hallowed hlt)⟩

theorem Explores.step (hP : ∀ id t, P id → t ∈ Link.targetsFrom id links → allowed t = true → P t)
    (h : Explores links allowed P size first w) :
    Explores links allowed P size first (w.step (Link.targets size links) allowed) := by
  obtain ⟨pending, marked⟩ := w
  cases pending with
  | nil => exact h
  | cons id pending =>
    by_cases hid : allowed id ∧ marked[id]? = some false
    · have hlt : id < size := h.bound ▸ (Array.getElem?_eq_some_iff.mp hid.2).1
      simp only [Worklist.step, if_pos hid, Link.targets_getElem?_eq hlt, Option.getD_some]
      exact h.visit hP hid.1 hlt
    · simp only [Worklist.step, if_neg hid]
      exact h.drop hid

theorem Explores.steps
    (hP : ∀ id t, P id → t ∈ Link.targetsFrom id links → allowed t = true → P t) {n : Nat}
    (h : Explores links allowed P size first w) :
    Explores links allowed P size first (w.steps (Link.targets size links) allowed n) := by
  induction n generalizing w with
  | zero => exact h
  | succ n ih =>
    rw [Worklist.steps]
    split
    · exact h
    · exact ih (h.step hP)

end Worklist

namespace Greedy

variable {items : List (Node × Mark)}

/-- A match may end right behind the last mandatory token and every later one. -/
theorem LastMandatory.isEnd_iff {marks : List Mark} {m : Nat} (hm : LastMandatory marks m)
    {p : Place} (hp : p.token ≤ marks.length) :
    IsEnd marks p ↔ p.passed = 0 ∧ 1 ≤ m ∧ m ≤ p.token := by
  refine and_congr_right fun _ => ⟨?_, ?_⟩
  · intro hend
    obtain ⟨⟨i, hi, hpos, hmark⟩, hafter⟩ := hend
    have hle : m ≤ p.token := Nat.le_of_not_lt fun h => hafter m hm.le h hm.mark
    have him : i ≤ m := Nat.le_of_not_lt fun h => hm.after i (by omega) h hmark
    exact ⟨by omega, hle⟩
  · intro hbounds
    obtain ⟨hpos, hle⟩ := hbounds
    exact ⟨⟨m, hle, hpos, hm.mark⟩, fun i hi hlt => hm.after i hi (by omega)⟩

/-- Whether a state may be marked. -/
def markable (items : List (Node × Mark)) (id : Nat) : Bool :=
  (Graph.layout (items.map (·.1))).toArray[id]?.any (!·.isSkip)

/-- The nodes of tokens may be marked, the root and the skips may not. -/
theorem markable_place (hitems : NoSkips (items.map (·.1))) {p : Place} (hp : p.Within items.length) :
    markable items p.id = decide (p.passed = 0 ∧ 1 ≤ p.token) := by
  have hp' : p.Within (items.map (·.1)).length := by simpa using hp
  rw [markable, List.getElem?_toArray, layout_place hp', Option.any_some, Place.node]
  rcases p with ⟨k, _ | h⟩
  · cases k with
    | zero => rfl
    | succ k =>
      have hnode := hitems.nodeAt (Nat.le_add_left 1 k) hp'.1
      simp [Node.isSkip, hnode]
  · simp [Node.isSkip, Node.skip]

theorem markable_token (hitems : NoSkips (items.map (·.1))) {j : Nat} (hj : j ≤ items.length) :
    markable items (tokenId j) = decide (1 ≤ j) := by
  have hplace := markable_place hitems (p := ⟨j, 0⟩) ⟨hj, .inl rfl⟩
  rw [show tokenId j = Place.id ⟨j, 0⟩ from rfl, hplace, decide_eq_decide]
  exact and_iff_right rfl

/-- The targets of a token that may be marked are tokens, and none of them stands before it. -/
theorem markable_target (hitems : NoSkips (items.map (·.1))) {k t : Nat} (hk : k ≤ items.length)
    (ht : t ∈ Link.targetsFrom (tokenId k) (Frontier.start.allLinks (items.map (·.2))))
    (hmark : markable items t = true) : ∃ j, k ≤ j ∧ j ≤ items.length ∧ t = tokenId j := by
  have hlaid : t ∈ laid (items.map (·.2)) ⟨k, 0⟩ := by
    rw [← targets_eq_laid _ ⟨k, 0⟩ (.inl rfl)]
    exact ht
  rcases List.mem_append.mp ((laid_perm _ k).mem_iff.mp hlaid) with ht | ht
  · obtain ⟨j, hj, rfl⟩ := List.mem_map.mp ht
    obtain ⟨hj, hf⟩ := mem_candidates.mp hj
    exact ⟨j, hf.le.1, by simpa using hj, rfl⟩
  · split at ht
    · rename_i hin
      obtain rfl := List.mem_singleton.mp ht
      have hskip := markable_place hitems (p := ⟨k, 1⟩)
        ⟨hk, .inr ⟨hin.1, by simpa using hin.2, Nat.le_succ 1⟩⟩
      rw [show 3 * k = Place.id ⟨k, 1⟩ from rfl, hskip] at hmark
      simp at hmark
    · exact absurd ht List.not_mem_nil

/-- A link leads from every token to the next one. -/
theorem next_target {marks : List Mark} {k : Nat} (hk : k < marks.length) :
    tokenId (k + 1) ∈ Link.targetsFrom (tokenId k) (Frontier.start.allLinks marks) := by
  have hnext : k + 1 ∈ candidates marks ⟨k, 0⟩ := mem_candidates.mpr ⟨hk, .inr (.inl rfl)⟩
  have hlaid : tokenId (k + 1) ∈ laid marks ⟨k, 0⟩ :=
    (laid_perm marks k).mem_iff.mpr (List.mem_append_left _ (List.mem_map_of_mem hnext))
  rw [← targets_eq_laid marks ⟨k, 0⟩ (.inl rfl)] at hlaid
  exact hlaid

/-! ### The worklist of a pattern -/

/-- The node of some token, or of one after it; none if the token is the root. -/
def FromToken (items : List (Node × Mark)) (m id : Nat) : Prop :=
  1 ≤ m ∧ ∃ j, m ≤ j ∧ j ≤ items.length ∧ id = tokenId j

/-- The worklist from a token on when it is worked off. -/
def workedOff (items : List (Node × Mark)) (m : Nat) : Worklist :=
  let size := (Graph.layout (items.map (·.1))).toArray.size
  let links := Frontier.start.allLinks (items.map (·.2))
  (Worklist.start size (tokenId m)).steps (Link.targets size links) (markable items)
    (links.length + 1)

theorem finalStates_eq {m : Nat} (hm : LastMandatory (items.map (·.2)) m) :
    finalStates items = (workedOff items m).marked := by
  rw [finalStates, hm.advanceAll]
  rfl

theorem pending_workedOff (m : Nat) : (workedOff items m).pending = [] := by
  refine Worklist.pending_steps Array.size_replicate ?_
  have hle := List.countP_le_length
    (p := fun l : Link => (Worklist.start (Graph.layout (items.map (·.1))).toArray.size
      (tokenId m)).marked[l.source]? = some false)
    (l := Frontier.start.allLinks (items.map (·.2)))
  simp only [Worklist.owed, Worklist.start, List.length_singleton] at hle ⊢
  omega

section Marks

variable (hitems : NoSkips (items.map (·.1))) {m : Nat} (hm : m ≤ items.length)
include hitems hm

theorem workedOff_explores :
    Worklist.Explores (Frontier.start.allLinks (items.map (·.2))) (markable items)
      (FromToken items m) (Graph.layout (items.map (·.1))).toArray.size (tokenId m)
      (workedOff items m) := by
  refine Worklist.Explores.steps ?_ (Worklist.explores_start ?_)
  · intro id t hid ht hmark
    obtain ⟨hpos, j, hmj, hj, rfl⟩ := hid
    obtain ⟨i, hji, hi, rfl⟩ := markable_target hitems hj ht hmark
    exact ⟨hpos, i, Nat.le_trans hmj hji, hi, rfl⟩
  · intro hmark
    rw [markable_token hitems hm, decide_eq_true_eq] at hmark
    exact ⟨hmark, m, Nat.le_refl m, hm, rfl⟩

/-- All tokens from a token on are marked, each through the link from the one before it. -/
theorem marked_workedOff {i : Nat} (hpos : 1 ≤ m) (hi : m + i ≤ items.length) :
    (workedOff items m).marked[tokenId (m + i)]? = some true := by
  have hexplores := workedOff_explores hitems hm
  have hpending : (workedOff items m).pending = [] := pending_workedOff m
  have hsize : ∀ j ≤ items.length, tokenId j < (Graph.layout (items.map (·.1))).toArray.size := by
    intro j hj
    rw [List.size_toArray, length_layout, List.length_map]
    exact tokenId_lt_tokenId (Nat.lt_succ_of_le hj)
  have hmark : ∀ j ≤ items.length, 1 ≤ j → markable items (tokenId j) = true := by
    intro j hj hpos
    rw [markable_token hitems hj]
    exact decide_eq_true hpos
  induction i with
  | zero =>
    have hseeded := hexplores.seeded (hmark m hm hpos) (hsize m hm)
    rw [hpending] at hseeded
    exact hseeded.resolve_right List.not_mem_nil
  | succ i ih =>
    have hnext : m + i < (items.map (·.2)).length := by
      rw [List.length_map]
      omega
    have hclosed := hexplores.closed _ (ih (by omega)) _ (next_target hnext)
      (hmark _ hi (by omega)) (hsize _ hi)
    rw [hpending] at hclosed
    exact hclosed.resolve_right List.not_mem_nil

theorem workedOff_iff (id : Nat) :
    (workedOff items m).marked[id]? = some true ↔ FromToken items m id := by
  refine ⟨(workedOff_explores hitems hm).sound id, ?_⟩
  intro hid
  obtain ⟨hpos, j, hmj, hj, rfl⟩ := hid
  obtain ⟨i, rfl⟩ := Nat.exists_eq_add_of_le hmj
  exact marked_workedOff hitems hm hpos hj

end Marks

/-- The final states are those at which a match may end. -/
theorem isFinal_place (hitems : NoSkips (items.map (·.1))) {p : Place} (hp : p.Within items.length) :
    (Graph.ofNodes items).isFinal p.id = decide (IsEnd (items.map (·.2)) p) := by
  obtain ⟨m, hm, _⟩ := exists_advanceAll (items.map (·.2))
  have hend := hm.isEnd_iff (p := p) (by simpa using hp.1)
  have hle : m ≤ items.length := by simpa using hm.le
  have hfinal := workedOff_iff hitems hle p.id
  rw [← finalStates_eq hm] at hfinal
  have hiff : (finalStates items)[p.id]? = some true ↔ IsEnd (items.map (·.2)) p := by
    rw [hfinal, hend]
    constructor
    · intro hreached
      obtain ⟨hpos, j, hmj, hj, hid⟩ := hreached
      have : p = ⟨j, 0⟩ := Place.id_injective hp ⟨hj, .inl rfl⟩ hid
      subst this
      exact ⟨rfl, hpos, hmj⟩
    · intro hends
      obtain ⟨hpassed, hpos, hle⟩ := hends
      refine ⟨hpos, p.token, hle, hp.1, ?_⟩
      obtain ⟨k, h⟩ := p
      obtain rfl : h = 0 := hpassed
      rfl
  have hget : ∀ o : Option Bool, o.getD false = decide (o = some true) := fun o => by
    rcases o with _ | _ | _ <;> rfl
  rw [Graph.isFinal, state?_place hp, Option.any_some, hget, decide_eq_decide]
  exact hiff

/-- Only the nodes of tokens are final states. -/
theorem exists_token_of_isFinal (hitems : NoSkips (items.map (·.1))) {id : Nat}
    (h : (Graph.ofNodes items).isFinal id = true) :
    ∃ k, 1 ≤ k ∧ k ≤ items.length ∧ id = tokenId k := by
  obtain ⟨m, hm, _⟩ := exists_advanceAll (items.map (·.2))
  have hle : m ≤ items.length := by simpa using hm.le
  have hfinal := workedOff_iff hitems hle id
  rw [← finalStates_eq hm] at hfinal
  have hmarked : (finalStates items)[id]? = some true := by
    rw [Graph.isFinal, Graph.state?, Graph.ofNodes, Array.getElem?_mapIdx, Option.any_map] at h
    obtain ⟨_, _, hstate⟩ := (Option.any_eq_true ..).mp h
    have hstate : (finalStates items)[id]?.getD false = true := hstate
    rcases hget : (finalStates items)[id]? with _ | _ | _ <;> simp_all
  obtain ⟨hpos, k, hmk, hk, rfl⟩ := hfinal.mp hmarked
  exact ⟨k, Nat.le_trans hpos hmk, hk, rfl⟩

end Greedy
end TokenPatterns
