import Mathlib.Data.List.TakeWhile
import TokenPatterns.Lexicon.Dictionary
import TokenPatterns.Proofs.Registry.Reachable

/-! The history of a registry.

What a registry holds follows from the operations on it. Its matchers are those that were accepted
and not removed since, in the order of their registration (`matchers_after`), while its default
styles have the style keys of all matchers that were ever accepted (`getElem?_defaultStyles_after`).
The registry of a configuration has a history too, the registrations of its patterns
(`ofConfig_of_sound`). So after a removal the matches are those of a registry to which the removed
matchers never came, up to style keys that these left behind (`bestMatch_of_matchers_eq`). -/
namespace TokenPatterns

/-! ### Sound configurations -/

/-- Trimming leaves nothing of a text that holds nothing but blanks. -/
theorem Letter.trim_eq_nil_iff {cs : List Char} : trim cs = [] ↔ allBlank cs = true := by
  have hstart : ∀ ds : List Char, trimStart ds = [] ↔ ∀ c ∈ ds, isBlank c = true := fun ds =>
    List.dropWhile_eq_nil_iff
  rw [trim, trimEnd, List.reverse_eq_nil_iff, hstart, allBlank, List.all_eq_true, ← hstart cs]
  constructor
  · intro hblank
    by_contra hne
    -- the first character that is left is no blank
    have hhead : isBlank ((trimStart cs).head hne) = false := List.head_dropWhile_not isBlank hne
    rw [hblank _ (List.mem_reverse.mpr (List.head_mem hne))] at hhead
    cases hhead
  · intro hnil
    rw [hnil]
    exact fun c hc => absurd hc List.not_mem_nil

namespace Config

theorem isBlank_iff {s : String} : isBlank s = true ↔ Letter.trim s.toList = [] :=
  Letter.trim_eq_nil_iff.symm

/-- A configuration is sound unless its language or the identifier of a pattern is blank. -/
theorem fault?_eq_none_iff {c : Config} :
    c.fault? = none ↔
      ¬(Letter.trim c.language.toList = [] ∨ ∃ d ∈ c.patterns, Letter.trim d.id.toList = []) := by
  simp only [← isBlank_iff]
  rw [fault?, not_or]
  by_cases hlanguage : isBlank c.language = true
  · rw [if_pos hlanguage]
    exact iff_of_false (Option.some_ne_none _) fun h => h.1 hlanguage
  · rw [if_neg hlanguage, Option.map_eq_none_iff, List.find?_eq_none]
    simp only [not_exists, not_and]
    exact (and_iff_right hlanguage).symm

/-- Compiles a pattern in its own language, or else in that of the configuration. -/
def compile (c : Config) (d : PatternDefinition) : Inquiry Matcher :=
  Matcher.compile d.id d.pattern d.styles (d.language.getD c.language)

end Config

namespace Registry

/-! ### Operations -/

/-- What can be done to a registry. Matchers are registered in the same way whether they are held
elsewhere as well or not. -/
inductive Operation where
  | register (m : Matcher)
  /-- Registers a matcher, and says why if it is refused. -/
  | tryRegister (m : Matcher)
  | remove (id : String)

/-- What an operation answers. -/
inductive Answer where
  /-- Whether the matcher was accepted. -/
  | accepted (yes : Bool)
  /-- Why the matcher was refused, if it was. -/
  | checked (fault : Option Error)
  /-- How many matchers were removed. -/
  | removed (count : Nat)
deriving DecidableEq

/-- Performs an operation. -/
def perform (r : Registry) : Operation → Registry × Answer
  | .register m =>
    match r.add m with
    | .ok r' => (r', .accepted true)
    | .error _ => (r, .accepted false)
  | .tryRegister m =>
    match r.add m with
    | .ok r' => (r', .checked none)
    | .error e => (r, .checked (some e))
  | .remove id => (r.remove id, .removed (r.count id))

/-- The registry after a sequence of operations. -/
def after (r : Registry) (ops : List Operation) : Registry :=
  ops.foldl (fun r op => (r.perform op).1) r

namespace Operation

/-- The matcher that an operation brings into a registry, if any. -/
def accepted? : Operation → Option Matcher
  | register m | tryRegister m => if m.isValid then some m else none
  | remove _ => none

/-- Whether an operation registers a matcher with an identifier. -/
def registers (id : String) : Operation → Bool
  | register m | tryRegister m => m.id == id
  | remove _ => false

/-- Whether an operation removes the matchers with an identifier. -/
def removes (id : String) : Operation → Bool
  | register _ | tryRegister _ => false
  | remove other => other == id

end Operation

/-- The matchers accepted in a history, in order. -/
def accepted (ops : List Operation) : List Matcher := ops.filterMap Operation.accepted?

/-- The matchers accepted in a history whose identifiers are not removed after that, in order. -/
def surviving : List Operation → List Matcher
  | [] => []
  | op :: ops =>
    op.accepted?.toList.filter (fun m => !ops.any (·.removes m.id)) ++ surviving ops

/-! ### One operation -/

variable {r : Registry}

theorem add_of_valid {m : Matcher} (h : m.isValid = true) :
    r.add m = .ok ⟨r.matchers ++ [m], (wildcards m.styles).overlay r.defaultStyles⟩ :=
  if_pos h

theorem add_of_invalid {m : Matcher} (h : m.isValid = false) :
    r.add m = .error (.noTokens m.pattern m.id) :=
  if_neg (Bool.eq_false_iff.mp h)

theorem perform_of_valid {m : Matcher} (h : m.isValid = true) :
    let r' : Registry := ⟨r.matchers ++ [m], (wildcards m.styles).overlay r.defaultStyles⟩
    r.perform (.register m) = (r', .accepted true) ∧
      r.perform (.tryRegister m) = (r', .checked none) := by
  simp only [perform, add_of_valid h, and_self]

theorem perform_of_invalid {m : Matcher} (h : m.isValid = false) :
    r.perform (.register m) = (r, .accepted false) ∧
      r.perform (.tryRegister m) = (r, .checked (some (.noTokens m.pattern m.id))) := by
  simp only [perform, add_of_invalid h, and_self]

/-- An operation accepts a matcher, removes some, or changes nothing. -/
theorem perform_cases (r : Registry) (op : Operation) :
    (∃ m, op.accepted? = some m ∧ (∀ id, op.removes id = false) ∧
      (r.perform op).1 = ⟨r.matchers ++ [m], (wildcards m.styles).overlay r.defaultStyles⟩) ∨
    op.accepted? = none ∧
      (r.perform op).1 = ⟨r.matchers.filter (!op.removes ·.id), r.defaultStyles⟩ := by
  have hkept : r = ⟨r.matchers.filter fun _ => !false, r.defaultStyles⟩ := by
    simp only [Bool.not_false, List.filter_true]
  cases op with
  | register m =>
    cases h : m.isValid with
    | true => exact .inl ⟨m, if_pos h, fun _ => rfl, by rw [(perform_of_valid h).1]⟩
    | false => exact .inr ⟨if_neg (Bool.eq_false_iff.mp h), by rw [(perform_of_invalid h).1]; exact hkept⟩
  | tryRegister m =>
    cases h : m.isValid with
    | true => exact .inl ⟨m, if_pos h, fun _ => rfl, by rw [(perform_of_valid h).2]⟩
    | false => exact .inr ⟨if_neg (Bool.eq_false_iff.mp h), by rw [(perform_of_invalid h).2]; exact hkept⟩
  | remove id =>
    refine .inr ⟨rfl, ?_⟩
    simp only [perform, remove, Operation.removes, bne, Bool.beq_comm]

/-- A removal drops the matchers with the identifier, and keeps all others. -/
theorem size_remove_add_count (r : Registry) (id : String) :
    (r.remove id).size + r.count id = r.size := by
  have hsplit := List.length_eq_countP_add_countP (fun m : Matcher => m.id == id) (l := r.matchers)
  have hothers : (r.remove id).size = r.matchers.countP fun m => m.id != id :=
    List.countP_eq_length_filter.symm
  have hnot : (r.matchers.countP fun m => decide ¬(m.id == id) = true) =
      r.matchers.countP fun m => m.id != id :=
    List.countP_congr fun m _ => by simp
  rw [hnot, Nat.add_comm] at hsplit
  rw [hothers, count, size, hsplit]

/-! ### Matchers -/

theorem matchers_perform (r : Registry) (op : Operation) :
    (r.perform op).1.matchers = r.matchers.filter (!op.removes ·.id) ++ op.accepted?.toList := by
  rcases perform_cases r op with ⟨m, hm, hremoves, h⟩ | ⟨hm, h⟩
  · simp only [h, hm, hremoves, Bool.not_false, List.filter_true, Option.toList_some]
  · rw [h, hm, Option.toList_none, List.append_nil]

/-- The matchers of a registry are those it had and those accepted since, without those whose
identifiers were removed after that. -/
theorem matchers_after (r : Registry) (ops : List Operation) :
    (r.after ops).matchers =
      r.matchers.filter (fun m => !ops.any (·.removes m.id)) ++ surviving ops := by
  induction ops generalizing r with
  | nil => simp [after, surviving]
  | cons op ops ih =>
    have hafter : r.after (op :: ops) = (r.perform op).1.after ops := rfl
    rw [hafter, ih, matchers_perform, List.filter_append, List.filter_filter, surviving,
      List.append_assoc]
    congr 1
    refine List.filter_congr fun m _ => ?_
    rw [List.any_cons, Bool.not_or, Bool.and_comm]

theorem matchers_after_empty (ops : List Operation) : (after {} ops).matchers = surviving ops :=
  matchers_after {} ops

theorem after_append (r : Registry) (ops more : List Operation) :
    r.after (ops ++ more) = (r.after ops).after more :=
  List.foldl_append

theorem after_concat (r : Registry) (ops : List Operation) (op : Operation) :
    r.after (ops ++ [op]) = ((r.after ops).perform op).1 :=
  after_append r ops [op]

theorem surviving_append (ops more : List Operation) :
    surviving (ops ++ more) =
      (surviving ops).filter (fun m => !more.any (·.removes m.id)) ++ surviving more := by
  rw [← matchers_after_empty, after_append, matchers_after, matchers_after_empty]

theorem Operation.registers_eq {op : Operation} {m : Matcher} (h : m ∈ op.accepted?.toList)
    (id : String) : op.registers id = (m.id == id) := by
  cases op with
  | register other | tryRegister other =>
    obtain ⟨_, hother⟩ := Option.ite_none_right_eq_some.mp (Option.mem_toList.mp h)
    rw [← Option.some.inj hother]
    rfl
  | remove other => cases h

/-- Registrations remove nothing. -/
theorem any_removes_filter (ops : List Operation) (id other : String) :
    (ops.filter (!·.registers id)).any (·.removes other) = ops.any (·.removes other) := by
  rw [List.any_filter]
  congr 1
  funext op
  cases op with
  | register m | tryRegister m => exact Bool.and_false _
  | remove id => rfl

/-- Without the registrations under an identifier a history leaves the other matchers. -/
theorem surviving_filter (ops : List Operation) (id : String) :
    surviving (ops.filter (!·.registers id)) = (surviving ops).filter (·.id != id) := by
  induction ops with
  | nil => rfl
  | cons op ops ih =>
    rw [surviving, List.filter_append, ← ih, List.filter_filter]
    cases hop : op.registers id with
    | true =>
      have hnone : op.accepted?.toList.filter
          (fun m => m.id != id && !ops.any (·.removes m.id)) = [] := by
        refine List.filter_eq_nil_iff.mpr fun m hm => ?_
        rw [bne, ← Operation.registers_eq hm, hop]
        exact Bool.false_ne_true
      rw [List.filter_cons_of_neg (by rw [hop]; exact Bool.false_ne_true), hnone, List.nil_append]
    | false =>
      rw [List.filter_cons_of_pos (by rw [hop]; rfl), surviving]
      simp only [any_removes_filter]
      congr 1
      refine List.filter_congr fun m hm => ?_
      rw [bne, ← Operation.registers_eq hm, hop, Bool.not_false, Bool.true_and]

/-- After a removal the matchers are those of a history in which the removed ones never came. -/
theorem matchers_after_removal (ops more : List Operation) (id : String) :
    (after {} (ops ++ .remove id :: more)).matchers =
      (after {} (ops.filter (!·.registers id) ++ more)).matchers := by
  have hremoved : ∀ m : Matcher, (!(Operation.remove id :: more).any (·.removes m.id)) =
      (m.id != id && !more.any (·.removes m.id)) := by
    intro m
    rw [List.any_cons, Bool.not_or, Operation.removes, bne, Bool.beq_comm]
  rw [matchers_after_empty, matchers_after_empty, surviving_append, surviving_append,
    surviving_filter, List.filter_filter]
  simp only [hremoved, Bool.and_comm]
  rfl

/-! ### Default styles -/

theorem getElem?_wildcards (styles : Bindings) (key : String) :
    (wildcards styles)[key]? = styles[key]?.map fun _ => Style.wildcard :=
  Std.ExtTreeMap.getElem?_map

/-- An operation that accepts a matcher adds those of its style keys that are new. -/
theorem getElem?_defaultStyles_perform (r : Registry) (op : Operation) (key : String) :
    (r.perform op).1.defaultStyles[key]? = r.defaultStyles[key]?.or
      (if ∃ m ∈ op.accepted?.toList, key ∈ m.styles then some Style.wildcard else none) := by
  rcases perform_cases r op with ⟨m, hm, _, h⟩ | ⟨hm, h⟩
  · rw [h, Bindings.getElem?_overlay, getElem?_wildcards, hm]
    congr 1
    by_cases hkey : key ∈ m.styles
    · rw [if_pos ⟨m, Option.mem_toList.mpr rfl, hkey⟩, Std.ExtTreeMap.getElem?_eq_some_getElem hkey]
      rfl
    · have hnone : ¬∃ other ∈ (some m).toList, key ∈ other.styles := by simpa using hkey
      rw [if_neg hnone, Std.ExtTreeMap.getElem?_eq_none hkey]
      rfl
  · rw [h, hm, if_neg (by simp), Option.or_none]

theorem accepted_concat (ops : List Operation) (op : Operation) :
    accepted (ops ++ [op]) = accepted ops ++ op.accepted?.toList := by
  rw [accepted, List.filterMap_append, accepted, List.filterMap_cons]
  cases op.accepted? <;> rfl

/-- The default styles of a registry that starts empty have the style keys of all matchers ever
accepted, each with the wildcard as its value. -/
theorem getElem?_defaultStyles_after (ops : List Operation) (key : String) :
    (after {} ops).defaultStyles[key]? =
      if ∃ m ∈ accepted ops, key ∈ m.styles then some Style.wildcard else none := by
  induction ops using List.reverseRecOn with
  | nil => rfl
  | append_singleton ops op ih =>
    have haccepted : (∃ m ∈ accepted (ops ++ [op]), key ∈ m.styles) ↔
        (∃ m ∈ accepted ops, key ∈ m.styles) ∨ ∃ m ∈ op.accepted?.toList, key ∈ m.styles := by
      simp only [accepted_concat, List.mem_append, or_and_right, exists_or]
    rw [after_concat, getElem?_defaultStyles_perform, ih]
    by_cases hops : ∃ m ∈ accepted ops, key ∈ m.styles
    · rw [if_pos hops, if_pos (haccepted.mpr (.inl hops)), Option.some_or]
    · rw [if_neg hops, Option.none_or]
      exact if_congr (by rw [haccepted, or_iff_right hops]) rfl rfl

/-! ### Configurations -/

theorem addIfValid_eq_perform (r : Registry) (m : Matcher) :
    r.addIfValid m = (r.perform (.register m)).1 := by
  rw [addIfValid, perform]
  cases r.add m <;> rfl

/-- Registering the patterns of a configuration is registering the matchers compiled from them. -/
theorem addDefinitions_eq (c : Config) (ds : List PatternDefinition) (r : Registry) :
    addDefinitions c ds r =
      (fun ms => r.after (ms.map .register)) <$> ds.mapM c.compile := by
  induction ds generalizing r with
  | nil => rfl
  | cons d ds ih =>
    rw [addDefinitions, List.mapM_cons, map_bind]
    congr 1
    funext m
    rw [ih, map_bind, addIfValid_eq_perform]
    simp only [map_pure, bind_pure_comp]
    rfl

/-- The registry of a configuration that is sound. -/
theorem ofConfig_of_sound {c : Config} {q : Inquiry Registry} (h : ofConfig c = .ok q) :
    q = (fun ms => after {} (ms.map .register)) <$> c.patterns.mapM c.compile := by
  rw [ofConfig] at h
  split at h
  · cases h
  · rw [← addDefinitions_eq]
    exact (Except.ok.inj h).symm

theorem exists_error_iff {c : Config} :
    (∃ e, ofConfig c = .error e) ↔
      Letter.trim c.language.toList = [] ∨ ∃ d ∈ c.patterns, Letter.trim d.id.toList = [] := by
  rw [← not_iff_comm.mp Config.fault?_eq_none_iff.symm, ofConfig]
  cases c.fault? <;> simp

/-! ### Best matches -/

/-- Registries with the same matchers have the same best matches but for their styles. -/
theorem bestMatch_of_matchers_eq {r r' : Registry} (h : r.matchers = r'.matchers) {σ : Type}
    (answer : Query → σ → SynsetSet × σ) (s : σ) (text : Text) (first stop : Nat) :
    ∃ leader : Option (Matcher × PatternMatch),
      ((r.bestMatch text first stop).runWith answer s).1 = leader.map (fun p => r.report p.1 p.2) ∧
      ((r'.bestMatch text first stop).runWith answer s).1 = leader.map fun p => r'.report p.1 p.2 := by
  refine ⟨((bestOf text first stop r.matchers none).runWith answer s).1, ?_, ?_⟩
  · rw [bestMatch, Inquiry.runWith_bind, Inquiry.runWith_pure]
  · rw [bestMatch, Inquiry.runWith_bind, Inquiry.runWith_pure, h]

/-- What a registry with more style keys reports has these keys with the wildcard as their value. -/
theorem getElem?_styles_report {r r' : Registry}
    (h : ∀ key : String, r.defaultStyles[key]? = r'.defaultStyles[key]? ∨
      r'.defaultStyles[key]? = none ∧ r.defaultStyles[key]? = some Style.wildcard)
    (m : Matcher) (found : PatternMatch) (key : String) :
    (r.report m found).styles[key]? = (r'.report m found).styles[key]? ∨
      (r'.report m found).styles[key]? = none ∧
        (r.report m found).styles[key]? = some Style.wildcard := by
  show (r.defaultStyles.overlay m.styles)[key]? = (r'.defaultStyles.overlay m.styles)[key]? ∨
    (r'.defaultStyles.overlay m.styles)[key]? = none ∧
      (r.defaultStyles.overlay m.styles)[key]? = some Style.wildcard
  rw [Bindings.getElem?_overlay, Bindings.getElem?_overlay]
  cases m.styles[key]? with
  | some value => exact .inl rfl
  | none => exact h key

/-- Some of the style keys of a history are gone if registrations are left out, and no others. -/
theorem defaultStyles_filter (ops more : List Operation) (id key : String) :
    let r := after {} (ops ++ .remove id :: more)
    let r' := after {} (ops.filter (!·.registers id) ++ more)
    r.defaultStyles[key]? = r'.defaultStyles[key]? ∨
      r'.defaultStyles[key]? = none ∧ r.defaultStyles[key]? = some Style.wildcard := by
  intro r r'
  have hsublist : (accepted (ops.filter (!·.registers id) ++ more)).Sublist
      (accepted (ops ++ .remove id :: more)) :=
    (List.filter_sublist.append (List.sublist_cons_self _ _)).filterMap _
  rw [getElem?_defaultStyles_after, getElem?_defaultStyles_after]
  by_cases hkey : ∃ m ∈ accepted (ops.filter (!·.registers id) ++ more), key ∈ m.styles
  · obtain ⟨m, hm, hmem⟩ := hkey
    rw [if_pos ⟨m, hsublist.mem hm, hmem⟩, if_pos ⟨m, hm, hmem⟩]
    exact .inl rfl
  · rw [if_neg hkey]
    split
    · exact .inr ⟨rfl, rfl⟩
    · exact .inl rfl

/-! ### Histories -/

/-- What a registry holds follows from its history: its matchers are those accepted and not removed
since, in order, and its default styles have the style keys of all matchers ever accepted, with the
wildcard. A matcher that is refused changes nothing, and a removal says how many matchers it drops.
A configuration with a blank language or a blank identifier gives no registry; any other one gives
that to which the matchers of its patterns have been registered, so that further operations carry
on from there. After a removal the best matches are those of a registry to which the removed matchers
never came, but for style keys with the wildcard that only the removed ones had. -/
theorem history_determines :
    (∀ ops : List Operation,
      (after {} ops).matchers = surviving ops ∧
      ∀ key : String, (after {} ops).defaultStyles[key]? =
        if ∃ m ∈ accepted ops, key ∈ m.styles then some Style.wildcard else none) ∧
    (∀ (r : Registry) (m : Matcher),
      (m.isValid = true → (r.perform (.register m)).2 = .accepted true ∧
        (r.perform (.tryRegister m)).2 = .checked none) ∧
      (m.isValid = false → r.perform (.register m) = (r, .accepted false) ∧
        r.perform (.tryRegister m) = (r, .checked (some (.noTokens m.pattern m.id))))) ∧
    (∀ (r : Registry) (id : String), ∃ n, (r.perform (.remove id)).2 = .removed n ∧
      (r.perform (.remove id)).1.size + n = r.size) ∧
    (∀ c : Config,
      ((∃ e, ofConfig c = .error e) ↔
        Letter.trim c.language.toList = [] ∨ ∃ d ∈ c.patterns, Letter.trim d.id.toList = []) ∧
      ∀ q, ofConfig c = .ok q →
        ∀ {σ : Type} (answer : Query → σ → SynsetSet × σ) (s : σ) (ops : List Operation),
          let loaded := (c.patterns.mapM c.compile).runWith answer s
          (q.runWith answer s).2 = loaded.2 ∧
            (q.runWith answer s).1.after ops = after {} (loaded.1.map .register ++ ops)) ∧
    ∀ (ops more : List Operation) (id : String),
      let r := after {} (ops ++ .remove id :: more)
      let r' := after {} (ops.filter (!·.registers id) ++ more)
      r.matchers = r'.matchers ∧
      ∀ {σ : Type} (answer : Query → σ → SynsetSet × σ) (s : σ) (text : Text) (first stop : Nat),
        let best := ((r.bestMatch text first stop).runWith answer s).1
        let best' := ((r'.bestMatch text first stop).runWith answer s).1
        best.map ({· with styles := ∅}) = best'.map ({· with styles := ∅}) ∧
        ∀ x x', best = some x → best' = some x' → ∀ key : String,
          x.styles[key]? = x'.styles[key]? ∨
            x'.styles[key]? = none ∧ x.styles[key]? = some Style.wildcard := by
  refine ⟨fun ops => ⟨matchers_after_empty ops, getElem?_defaultStyles_after ops⟩,
    fun r m => ⟨fun h => ?_, perform_of_invalid⟩,
    fun r id => ⟨r.count id, rfl, size_remove_add_count r id⟩,
    fun c => ⟨exists_error_iff, fun q hq σ answer s ops => ?_⟩, fun ops more id => ?_⟩
  · obtain ⟨hregister, htry⟩ := perform_of_valid (r := r) h
    rw [hregister, htry]
    exact ⟨rfl, rfl⟩
  · intro loaded
    rw [ofConfig_of_sound hq, Inquiry.runWith_map, after_append]
    exact ⟨rfl, rfl⟩
  · intro r r'
    refine ⟨matchers_after_removal ops more id, fun {σ} answer s text first stop => ?_⟩
    intro best best'
    obtain ⟨leader, hbest, hbest'⟩ :=
      bestMatch_of_matchers_eq (matchers_after_removal ops more id) answer s text first stop
    rw [show best = _ from hbest, show best' = _ from hbest']
    refine ⟨by rw [Option.map_map, Option.map_map]; rfl, fun x x' hx hx' key => ?_⟩
    obtain ⟨p, hp, rfl⟩ := Option.map_eq_some_iff.mp hx
    obtain ⟨p', hp', rfl⟩ := Option.map_eq_some_iff.mp hx'
    obtain rfl := Option.some.inj (hp.symm.trans hp')
    exact getElem?_styles_report (defaultStyles_filter ops more id) p.1 p.2 key

/-- A configuration, whose one matcher is removed and replaced by others under its identifier, one
of which is refused. -/
theorem history_determines_replaced :
    let answer : Query → Unit → SynsetSet × Unit := fun q s => (Dictionary.empty.lexicon q, s)
    let matcher (id pattern : String) (styles : Option String) : Matcher :=
      ((Matcher.compile id pattern styles "en").runWith answer ()).1
    let c : Config := {patterns := [{id := "a", pattern := "xxx", styles := some "lang=fr"}]}
    let refused := matcher "a" " " (some "mood=sad")
    let ops : List Operation := [.register (matcher "b" "xxx yyy" none), .remove "a",
      .tryRegister refused, .register (matcher "a" "yyy" none)]
    ∃ q, ofConfig c = .ok q ∧
      let r := (q.runWith answer ()).1.after ops
      r.matchers.map (·.pattern) = ["xxx yyy", "yyy"] ∧
        r.defaultStyles["lang"]? = some Style.wildcard ∧ r.defaultStyles["mood"]? = none ∧
        r.perform (.register refused) = (r, .accepted false) := by
  intro answer matcher c refused ops
  have hq : ofConfig c = .ok (addDefinitions c c.patterns {}) := by
    rw [ofConfig, show c.fault? = none by decide]
  obtain ⟨hruns, hrefused, _, hconfig, _⟩ := history_determines
  have hafter := ((hconfig c).2 _ hq answer () ops).2
  refine ⟨_, hq, ?_⟩
  intro r
  rw [show r = _ from hafter]
  obtain ⟨hmatchers, hstyles⟩ := hruns (_ ++ ops)
  rw [hmatchers, hstyles, hstyles]
  exact ⟨by decide +kernel, by decide +kernel, by decide +kernel,
    ((hrefused _ refused).2 (by decide +kernel)).1⟩

end Registry
end TokenPatterns
