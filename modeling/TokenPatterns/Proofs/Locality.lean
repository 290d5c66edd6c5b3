import TokenPatterns.Matcher
import TokenPatterns.Proofs.Text.Links

/-! Matching looks only at the tokens of its range.

Of each of them it sees the text and the set of part-of-speech codes, and not where in the text the
token stands. So two ranges that look alike give one inquiry (`Matcher.matchAt_alike`): the same
questions are asked on the way to the same match, whatever else their texts hold. -/
namespace TokenPatterns

namespace Text

/-- The part-of-speech codes at a position. -/
def codesAt (text : Text) (index : Nat) : List Int8 :=
  match text.layer? .pos with
  | none => []
  | some layer => (layer.atIndex index).map (·.label)

/-- A position of a text looks like one of another text: it has a token of the same text, and the
same set of part-of-speech codes. -/
structure Same (text : Text) (i : Nat) (other : Text) (j : Nat) : Prop where
  word : (text.token? i).map (·.text) = (other.token? j).map (·.text)
  codes : ∀ code, code ∈ text.codesAt i ↔ code ∈ other.codesAt j

/-- Some positions of a text in a row look like those of another text. -/
def Alike (text : Text) (i : Nat) (other : Text) (j n : Nat) : Prop :=
  ∀ d < n, Same text (i + d) other (j + d)

/-- Which word classes a position leaves open depends on its codes. -/
theorem classesAt_eq (text : Text) (index : Nat) :
    text.classesAt index =
      if text.codesAt index = [] then WordClass.all
      else WordClass.normalize ((text.codesAt index).filterMap WordClass.ofTagCode?) := by
  rw [classesAt, codesAt]
  cases text.layer? .pos with
  | none => rfl
  | some layer =>
    dsimp only
    split
    · next hnone => rw [if_pos (List.map_eq_nil_iff.mpr hnone)]
    · next hsome =>
      rw [if_neg fun hnil => hsome (List.map_eq_nil_iff.mp hnil), List.filterMap_map]
      rfl

theorem any_atIndex_eq (text : Text) (index : Nat) (codes : List Int8) :
    ((text.layer? .pos).any fun layer => (layer.atIndex index).any (codes.contains ·.label)) =
      (text.codesAt index).any codes.contains := by
  rw [codesAt]
  cases text.layer? .pos with
  | none => rfl
  | some layer =>
    dsimp only [Option.any_some]
    rw [List.any_map]
    rfl

namespace Same

variable {text other : Text} {i j : Nat} (h : text.Same i other j)
include h

theorem classesAt_eq : text.classesAt i = other.classesAt j := by
  have hnil : text.codesAt i = [] ↔ other.codesAt j = [] := by
    simp only [List.eq_nil_iff_forall_not_mem, h.codes]
  have hclasses : WordClass.normalize ((text.codesAt i).filterMap WordClass.ofTagCode?) =
      WordClass.normalize ((other.codesAt j).filterMap WordClass.ofTagCode?) :=
    WordClass.normalize_congr fun c => by simp only [List.mem_filterMap, h.codes]
  simp only [Text.classesAt_eq, hnil, hclasses]

/-- A test cannot tell them apart, and asks the same question at both. -/
theorem accepts_eq (test : Test) : test.accepts text i = test.accepts other j := by
  cases test with
  | skip => rfl
  | «variable» => rfl
  | literal word =>
    have hany := congrArg (Option.any (· == word)) h.word
    rw [Option.any_map, Option.any_map] at hany
    exact congrArg pure hany
  | tagged codes =>
    have hany : (text.codesAt i).any codes.contains = (other.codesAt j).any codes.contains := by
      rw [Bool.eq_iff_iff, List.any_eq_true, List.any_eq_true]
      exact exists_congr fun code => and_congr_left fun _ => h.codes code
    rw [Test.accepts, Test.accepts, any_atIndex_eq, any_atIndex_eq, hany]
  | synonym language synsets =>
    have hword := h.word
    rw [Test.accepts, Test.accepts, h.classesAt_eq]
    cases hi : text.token? i with
    | none =>
      cases hj : other.token? j with
      | none => rfl
      | some token => rw [hi, hj] at hword; cases hword
    | some token =>
      cases hj : other.token? j with
      | none => rw [hi, hj] at hword; cases hword
      | some token' =>
        rw [hi, hj] at hword
        dsimp only
        rw [show token.text = token'.text from Option.some.inj hword]

end Same

theorem Alike.tail {text other : Text} {i j n : Nat} (h : text.Alike i other j (n + 1)) :
    text.Alike (i + 1) other (j + 1) n := fun d hd => by
  have hsame := h (d + 1) (Nat.succ_lt_succ hd)
  rwa [Nat.add_comm d 1, ← Nat.add_assoc, ← Nat.add_assoc] at hsame

end Text

/-! ### Texts without their first tokens -/

namespace Layer

/-- The positions and codes of the taggings of a layer. -/
def codes (layer : Layer) : List (Nat × Int8) := layer.toList.map fun a => (a.textIndex, a.label)

theorem codes_eq (layer : Layer) : layer.codes = layer.contents.map (·.2) := by
  rw [contents, List.map_map]
  rfl

theorem codes_ofList (as : List Tagging) :
    (ofList as).codes = as.map fun a => (a.textIndex, a.label) := by
  rw [codes_eq, contents_ofList, List.map_map]
  rfl

theorem codes_stamp (level : Level) (layer : Layer) : (layer.stamp level).codes = layer.codes := by
  simp [codes, stamp, toList]

theorem labels_atIndex (layer : Layer) (index : Nat) :
    (layer.atIndex index).map (·.label) =
      (layer.codes.filter (·.1 == index)).map (·.2) := by
  rw [atIndex, codes, List.filter_map, List.map_map]
  rfl

/-- The layer of the taggings from a position on, with the positions counted from there. -/
def drop (layer : Layer) (n : Nat) : Layer :=
  ofList ((layer.toList.filter (n ≤ ·.textIndex)).map fun a =>
    {a with textIndex := a.textIndex - n})

/-- The codes at a position of what is left of a layer. -/
theorem labels_atIndex_drop (layer : Layer) (n index : Nat) :
    ((layer.drop n).atIndex index).map (·.label) = (layer.atIndex (n + index)).map (·.label) := by
  rw [labels_atIndex, drop, codes_ofList, labels_atIndex, codes]
  simp only [List.map_map, List.filter_map, List.filter_filter]
  refine congrArg (List.map _) (List.filter_congr fun a _ => ?_)
  rw [Bool.eq_iff_iff]
  simp only [Function.comp_apply, Bool.and_eq_true, beq_iff_eq, decide_eq_true_eq]
  omega

end Layer

namespace Text

theorem words_ofWords (words : List String) : (ofWords words).words = words := by
  have hfold : ∀ text : Text, (words.foldl (fun text word => text.add (TextToken.ofWord word))
      text).words = text.words ++ words := by
    induction words with
    | nil => exact fun text => (List.append_nil _).symm
    | cons word more ih =>
      intro text
      have hadd : (text.add (TextToken.ofWord word)).words = text.words ++ [word] := by
        simp [Text.words, add, TextToken.ofWord]
      rw [List.foldl_cons, ih, hadd, List.append_assoc]
      rfl
  exact hfold {}

theorem layer?_ofWords (words : List String) (level : Level) : (ofWords words).layer? level = none := by
  have hfold : ∀ text : Text, (words.foldl (fun text word => text.add (TextToken.ofWord word))
      text).layer? level = text.layer? level := by
    induction words with
    | nil => exact fun _ => rfl
    | cons word more ih => exact fun text => ih (text.add (TextToken.ofWord word))
  rw [ofWords, hfold]
  exact Layers.get?_empty level

/-- The text of the tokens from a position on, with their part-of-speech codes. -/
def drop (text : Text) (n : Nat) : Text :=
  let rest := ofWords (text.words.drop n)
  match text.layer? .pos with
  | none => rest
  | some layer => rest.setLayer .pos (layer.drop n)

theorem words_drop (text : Text) (n : Nat) : (text.drop n).words = text.words.drop n := by
  rw [drop]
  split <;> exact words_ofWords _

theorem size_drop (text : Text) (n : Nat) : (text.drop n).size = text.size - n := by
  rw [← length_words, words_drop, List.length_drop, length_words]

theorem codesAt_drop (text : Text) (n index : Nat) :
    (text.drop n).codesAt index = text.codesAt (n + index) := by
  rw [drop, codesAt, codesAt]
  cases text.layer? .pos with
  | none =>
    dsimp only
    rw [layer?_ofWords]
  | some layer =>
    dsimp only
    rw [layer?_setLayer, if_pos rfl]
    dsimp only
    rw [← Layer.labels_atIndex_drop, Layer.labels_atIndex, Layer.labels_atIndex, Layer.codes_stamp]

/-- What is left of a text looks like the text from there on. -/
theorem alike_drop (text : Text) (n i m : Nat) : text.Alike (n + i) (text.drop n) i m := by
  intro d _
  constructor
  · rw [← getElem?_words, ← getElem?_words, words_drop, List.getElem?_drop, Nat.add_assoc]
  · intro code
    rw [codesAt_drop, Nat.add_assoc]

end Text

/-! ### Walks -/

/-- What a match keeps of a step: the state, and the text of the token. -/
def Step.seen (text : Text) (s : Step) : Nat × Option String :=
  (s.state, (text.token? s.index).map (·.text))

namespace Inquiry

/-- Two inquiries that agree on a part of their results agree on all that depends on this part. -/
theorem map_congr_of_map_eq {α β γ δ : Type} {p : α → γ} {q : β → γ} {f : α → δ} {g : β → δ}
    (hfg : ∀ a b, p a = q b → f a = g b) {x : Inquiry α} {y : Inquiry β} (h : p <$> x = q <$> y) :
    f <$> x = g <$> y := by
  induction x generalizing y with
  | done a =>
    cases y with
    | done b => exact congrArg done (hfg a b (done.inj h))
    | ask => cases h
  | ask query next ih =>
    cases y with
    | done => cases h
    | ask query' next' =>
      obtain ⟨rfl, hnext⟩ := ask.inj h
      exact congrArg (ask query) (funext fun ids => ih ids (congrFun hnext ids))

end Inquiry

namespace Graph

variable {g : Graph} {text other : Text} {i j n : Nat}

theorem choose_eq (h : text.Same i other j) (ids : List Nat) :
    g.choose text i ids = g.choose other j ids := by
  have haccepts : ∀ id, g.accepts text id i = g.accepts other id j := by
    intro id
    rw [accepts, accepts]
    cases g.state? id with
    | none => rfl
    | some s => exact h.accepts_eq s.node.test
  induction ids with
  | nil => rfl
  | cons id ids ih => rw [choose, choose, haccepts, ih]

/-- Walks over tokens that look alike ask the same questions and come to the same states. -/
theorem seen_walk (h : text.Alike i other j n) (state : Nat) :
    List.map (Step.seen text) <$> g.walk text state i n =
      List.map (Step.seen other) <$> g.walk other state j n := by
  induction n generalizing state i j with
  | zero => rfl
  | succ n ih =>
    have hsame : text.Same i other j := h 0 (Nat.succ_pos n)
    rw [walk, walk, choose_eq hsame, map_bind, map_bind]
    refine bind_congr fun next? => ?_
    cases next? with
    | none => rfl
    | some id =>
      have hcons : ∀ (t : Text) (k : Nat) (steps : List Step),
          (⟨id, k⟩ :: steps).map (Step.seen t) =
            (id, (t.token? k).map (·.text)) :: steps.map (Step.seen t) := fun _ _ _ => rfl
      simp only [bind_pure_comp, Functor.map_map, hcons, hsame.word]
      rw [← Functor.map_map, ih h.tail, Functor.map_map]

/-- What a walk gives depends on what is kept of its steps. -/
theorem outcome_congr {steps steps' : List Step}
    (h : steps.map (Step.seen text) = steps'.map (Step.seen other)) :
    g.outcome text steps = g.outcome other steps' := by
  have hstates : steps.map (·.state) = steps'.map (·.state) := by
    have hfst := congrArg (List.map Prod.fst) h
    rwa [List.map_map, List.map_map] at hfst
  have hlast : lastState steps = lastState steps' := by
    have hlast := congrArg List.getLast? hstates
    rw [List.getLast?_map, List.getLast?_map] at hlast
    rw [lastState, lastState, hlast]
  have hcount : steps.countP (fun s => !g.isSkip s.state) =
      steps'.countP fun s => !g.isSkip s.state := by
    have hcount := congrArg (List.countP fun id => !g.isSkip id) hstates
    rwa [List.countP_map, List.countP_map] at hcount
  have hlength : steps.length = steps'.length := by
    have hlength := congrArg List.length h
    rwa [List.length_map, List.length_map] at hlength
  have hcaptured : g.captured text steps = g.captured other steps' := by
    have hlabelled := congrArg (List.map fun p : Nat × Option String => (g.label? p.1, p.2.getD "")) h
    rw [List.map_map, List.map_map] at hlabelled
    exact congrArg Capture.bindings hlabelled
  rw [outcome, outcome, hlast, hcount, hlength, hcaptured]

theorem matchAt_alike (h : text.Alike i other j n) {stop stop' : Nat}
    (hn : min stop text.size - i = n) (hn' : min stop' other.size - j = n) :
    g.matchAt text i stop = g.matchAt other j stop' := by
  rw [matchAt, matchAt, walkAt, walkAt, hn, hn']
  exact Inquiry.map_congr_of_map_eq (fun _ _ => outcome_congr) (seen_walk h root)

end Graph

namespace Matcher

theorem run_matchAt (lexicon : Lexicon) (m : Matcher) (text : Text) (start stop : Nat) :
    (m.matchAt text start stop).run lexicon =
      (m.graph.matchAt text start stop).run (m.lexicon.getD lexicon) := by
  rw [matchAt]
  cases m.lexicon with
  | none => rfl
  | some own => exact Inquiry.run_settle ..

/-- A matcher does the same on two ranges of the same length that look alike. -/
theorem matchAt_alike {m : Matcher} {text other : Text} {i j n : Nat} (h : text.Alike i other j n)
    {stop stop' : Nat} (hn : min stop text.size - i = n) (hn' : min stop' other.size - j = n) :
    m.matchAt text i stop = m.matchAt other j stop' := by
  rw [matchAt, matchAt, Graph.matchAt_alike h hn hn']

theorem run_matchAt_alike {lexicon : Lexicon} {m : Matcher} {text other : Text} {i j n : Nat}
    (h : text.Alike i other j n) {stop stop' : Nat} (hn : min stop text.size - i = n)
    (hn' : min stop' other.size - j = n) :
    (m.matchAt text i stop).run lexicon = (m.matchAt other j stop').run lexicon :=
  congrArg (Inquiry.run lexicon) (matchAt_alike h hn hn')

/-- Matching is local. Two ranges of one length whose tokens have the same texts and the same sets
of part-of-speech codes, wherever they stand and whether or not there is a layer of codes, give one
inquiry, and so one match under every lexicon. In particular nothing before a range or behind its
end in the text changes what the range gives, nor do the order and the repeats of the codes of a
token, the links between taggings, the other layers, the lemmas and the encodings. -/
theorem matchAt_local (m : Matcher) (text other : Text) :
    (∀ i j n, i + n ≤ text.size → j + n ≤ other.size → text.Alike i other j n →
      m.matchAt text i (i + n) = m.matchAt other j (j + n)) ∧
    ∀ first stop, min stop text.size = min stop other.size →
      (∀ index, first ≤ index → index < min stop text.size → text.Same index other index) →
      m.matchAt text first stop = m.matchAt other first stop := by
  refine ⟨fun i j n hi hj h => ?_, fun first stop hstop h => ?_⟩
  · exact matchAt_alike h (by omega) (by omega)
  · have halike : text.Alike first other first (min stop text.size - first) :=
      fun d hd => h (first + d) (Nat.le_add_right ..) (by omega)
    exact matchAt_alike halike rfl (by rw [hstop])

/-- A match that stands one token further on, with the codes in another order and without the lemma;
and one with another token in front of it and none behind it. -/
theorem matchAt_local_shifted :
    let m := standalone (fun word => word) "1" "the <NN*#what>" none
    let tags (codes : List (Nat × Int8)) := Layer.ofList (codes.map fun c => Tagging.ofCode c.1 c.2)
    let text := (Text.ofWords ["see", "the", "dog", "run"]).setLayer .pos
      (tags [(0, 27), (2, 12), (2, 28), (3, 27)])
    let moved := ((Text.ofWords ["the", "dog"]).setLayer .pos
      (tags [(1, 28), (1, 12), (1, 28)])).setLemma 1 (TextToken.ofWord "hound")
    let cut := (Text.ofWords ["pat", "the", "dog"]).setLayer .pos (tags [(2, 28), (2, 12)])
    text.Alike 1 moved 0 2 ∧ m.matchAt text 1 3 = m.matchAt moved 0 2 ∧
      (∀ index, 1 ≤ index → index < 3 → text.Same index cut index) ∧
      m.matchAt text 1 3 = m.matchAt cut 1 3 ∧
      ((m.matchAt text 1 3).run Dictionary.empty.lexicon).captures["#what"]? = some "dog" := by
  intro m tags text moved cut
  have hcodes : text.codesAt 2 = [12, 28] := by decide +kernel
  have halike : text.Alike 1 moved 0 2 := by
    intro d hd
    rcases (by omega : d = 0 ∨ d = 1) with rfl | rfl
    · exact ⟨by decide +kernel, fun code => by
        rw [show text.codesAt 1 = moved.codesAt 0 by decide +kernel]⟩
    · refine ⟨by decide +kernel, fun code => ?_⟩
      rw [hcodes, show moved.codesAt 1 = [28, 12, 28] by decide +kernel]
      grind
  have hsame : ∀ index, 1 ≤ index → index < 3 → text.Same index cut index := by
    intro index hfirst hstop
    rcases (by omega : index = 1 ∨ index = 2) with rfl | rfl
    · exact ⟨by decide +kernel, fun code => by
        rw [show text.codesAt 1 = cut.codesAt 1 by decide +kernel]⟩
    · refine ⟨by decide +kernel, fun code => ?_⟩
      rw [hcodes, show cut.codesAt 2 = [28, 12] by decide +kernel]
      grind
  exact ⟨halike,
    (matchAt_local m text moved).1 1 0 2 (by decide +kernel) (by decide +kernel) halike, hsame,
    (matchAt_local m text cut).2 1 3 (by decide +kernel) hsame, by decide +kernel⟩

end Matcher
end TokenPatterns
