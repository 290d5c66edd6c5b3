import Mathlib.Data.List.Basic
import TokenPatterns.Lexicon.Cache
import TokenPatterns.Pattern.Walk
import TokenPatterns.Proofs.Lexicon.Questions

/-! Caches do not show.

A lexicon is regular if it gives one answer to questions that are alike; a dictionary is if each of
its backends is (`Dictionary.regular_lexicon`). A cache over a regular lexicon keeps only answers
that the lexicon gives itself (`Cache.Faithful`), and no use of it changes that
(`Cache.Faithful.after`). So compiling and matching through a cache gives what it gives without one
(`Cache.Faithful.runWith`), whatever the cache was used for before. -/
namespace TokenPatterns

/-! ### Dictionaries -/

namespace Backend

/-- Questions that are alike have one answer. -/
def Regular (b : Backend) : Prop := ∀ q r : Query, q.Alike r → b.answer q = b.answer r

theorem regular_ofThesaurus (t : Thesaurus) : (ofThesaurus t).Regular := by
  intro q r h
  show t.synsets q = t.synsets r
  have hcontains : ∀ c, q.classes.contains c = r.classes.contains c := by
    intro c
    rw [Bool.eq_iff_iff, List.contains_iff_mem, List.contains_iff_mem]
    exact h.classes c
  simp only [Thesaurus.synsets, h.language, h.word, hcontains]

theorem regular_identity (digits : String → String) (scope : String) :
    (identity digits scope).Regular := by
  intro q r h
  show SynsetSet.ofList _ = SynsetSet.ofList _
  rw [h.word]

/-- A backend that fails answers nothing. -/
theorem answer_of_fails {b : Backend} {q : Query} {e : Error} (h : b.lookup q = .error e) :
    b.answer q = ∅ := by
  rw [answer, h]

/-- The backends of the library, and those that fail whatever they are asked. -/
inductive Standard : Backend → Prop
  | ofThesaurus (t : Thesaurus) : Standard (ofThesaurus t)
  | identity (digits : String → String) (scope : String) : Standard (identity digits scope)
  | fails {b : Backend} : (∀ q, ∃ e, b.lookup q = .error e) → Standard b

theorem Standard.regular {b : Backend} (h : b.Standard) : b.Regular := by
  cases h with
  | ofThesaurus t => exact regular_ofThesaurus t
  | identity digits scope => exact regular_identity digits scope
  | fails hfails =>
    intro q r _
    obtain ⟨e, hq⟩ := hfails q
    obtain ⟨e', hr⟩ := hfails r
    rw [answer_of_fails hq, answer_of_fails hr]

end Backend

namespace Dictionary

/-- The backends of a dictionary, that of its fallback included. -/
def backends (d : Dictionary) : List Backend := d.extensions ++ d.fallback.toList

/-- A dictionary answers alike if each of its backends does. -/
theorem regular_lexicon {d : Dictionary} (h : ∀ b ∈ d.backends, b.Regular) :
    Lexicon.Regular d.lexicon := by
  intro q r hqr
  have hgathered : d.gathered (posed q) = d.gathered (posed r) := by
    refine List.foldl_ext _ _ _ fun ids b hb => ?_
    rw [h b (List.mem_append_left _ hb) _ _ hqr.posed]
  show d.synsets q = d.synsets r
  rw [synsets, synsets, hgathered]
  cases hfallback : d.fallback with
  | none => rfl
  | some b =>
    have hb : b ∈ d.backends := List.mem_append_right _ (by rw [hfallback]; exact List.mem_singleton_self b)
    dsimp only
    rw [h b hb _ _ hqr.posed]

end Dictionary

/-! ### Caches -/

namespace Cache

/-- What a cache keeps is what the lexicon behind it answers. -/
def Faithful (lexicon : Lexicon) (c : Cache) : Prop :=
  ∀ q ids, c.find? q = some ids → ids = lexicon q

section Faithful

variable {lexicon : Lexicon} {c : Cache}

theorem faithful_of_isEmpty (h : c.entries = ∅) : c.Faithful lexicon := by
  intro q ids hids
  rw [find?, h, Std.ExtTreeMap.getElem?_empty] at hids
  cases hids

theorem faithful_clear (lexicon : Lexicon) (c : Cache) : c.clear.Faithful lexicon :=
  faithful_of_isEmpty rfl

theorem faithful_ofCapacity (lexicon : Lexicon) (n : Nat) : (ofCapacity n).Faithful lexicon :=
  faithful_of_isEmpty rfl

/-- What is found after an answer was kept: this answer, or one that was kept before. -/
theorem find?_store (c : Cache) (q r : Query) (ids : SynsetSet) :
    (c.store q ids).find? r =
      if q.normalize = r.normalize then some ids
      else if c.size ≥ c.capacity then none else c.find? r := by
  rw [store, find?, Std.ExtTreeMap.getElem?_insert]
  simp only [Std.compare_eq_iff_eq]
  refine if_congr Iff.rfl rfl ?_
  split
  · exact Std.ExtTreeMap.getElem?_empty
  · rfl

theorem Faithful.store (hlexicon : Lexicon.Regular lexicon) (h : c.Faithful lexicon) (q : Query) :
    (c.store q (lexicon q)).Faithful lexicon := by
  intro r ids hids
  rw [find?_store] at hids
  split at hids
  · next hnormal => exact (Option.some.inj hids).symm.trans (hlexicon q r (Query.normalize_eq_iff.mp hnormal))
  · split at hids
    · cases hids
    · exact h r ids hids

/-- A faithful cache answers as the lexicon does, and stays faithful. -/
theorem Faithful.answer (hlexicon : Lexicon.Regular lexicon) (q : Query) (h : c.Faithful lexicon) :
    (c.answer lexicon q).1 = lexicon q ∧ (c.answer lexicon q).2.Faithful lexicon := by
  rw [Cache.answer, lookup]
  cases hfind : c.find? q with
  | some ids => exact ⟨h q ids hfind, h⟩
  | none => exact ⟨rfl, h.store hlexicon q⟩

/-- Every inquiry has the result that the lexicon gives it. -/
theorem Faithful.runWith {α : Type} (hlexicon : Lexicon.Regular lexicon) (h : c.Faithful lexicon)
    (x : Inquiry α) :
    (x.runWith (Cache.answer lexicon) c).1 = x.run lexicon ∧
      (x.runWith (Cache.answer lexicon) c).2.Faithful lexicon :=
  Inquiry.runWith_eq_run (fun q _ hc => hc.answer hlexicon q) x h

end Faithful

/-- What a cache may be used for. -/
inductive Use where
  | lookup (q : Query)
  | compile (language pattern : String)
  | matchAt (g : Graph) (text : Text) (start stop : Nat)
  | clear

/-- The cache after it was used over a lexicon. -/
def Use.apply (lexicon : Lexicon) (c : Cache) : Use → Cache
  | lookup q => (c.answer lexicon q).2
  | compile language pattern => ((Graph.compile language pattern).runWith (Cache.answer lexicon) c).2
  | matchAt g text start stop => ((g.matchAt text start stop).runWith (Cache.answer lexicon) c).2
  | clear => c.clear

/-- The cache after a sequence of uses. -/
def after (lexicon : Lexicon) (uses : List Use) (c : Cache) : Cache :=
  uses.foldl (Use.apply lexicon) c

section Uses

variable {lexicon : Lexicon} (hlexicon : Lexicon.Regular lexicon) {c : Cache}
include hlexicon

theorem Faithful.apply (h : c.Faithful lexicon) (use : Use) : (use.apply lexicon c).Faithful lexicon := by
  cases use with
  | lookup q => exact (h.answer hlexicon q).2
  | compile language pattern => exact (h.runWith hlexicon _).2
  | matchAt g text start stop => exact (h.runWith hlexicon _).2
  | clear => exact faithful_clear lexicon c

theorem Faithful.after (h : c.Faithful lexicon) (uses : List Use) :
    (c.after lexicon uses).Faithful lexicon := by
  induction uses generalizing c with
  | nil => exact h
  | cons use uses ih => exact ih (h.apply hlexicon use)

end Uses

/-- Caches do not show. Over a regular lexicon a cache of any capacity, after any uses and clearings,
answers each question as the lexicon does; and all dictionaries made of standard backends are
regular. So a pattern that is compiled through a cache over such a dictionary, and matched through it
after further uses, has the graph and the match that the dictionary gives without the cache. -/
theorem cache_transparent :
    (∀ lexicon : Lexicon, Lexicon.Regular lexicon → ∀ (n : Nat) (uses : List Use) (q : Query),
      (((ofCapacity n).after lexicon uses).answer lexicon q).1 = lexicon q) ∧
    (∀ d : Dictionary, (∀ b ∈ d.backends, b.Standard) → Lexicon.Regular d.lexicon) ∧
    ∀ d : Dictionary, (∀ b ∈ d.backends, b.Standard) →
      ∀ (n : Nat) (before between : List Use) (language pattern : String) (text : Text)
        (start stop : Nat),
      let compiled := (Graph.compile language pattern).runWith (Cache.answer d.lexicon)
        ((ofCapacity n).after d.lexicon before)
      let found := (compiled.1.matchAt text start stop).runWith (Cache.answer d.lexicon)
        (compiled.2.after d.lexicon between)
      let graph := (Graph.compile language pattern).run d.lexicon
      compiled.1 = graph ∧ found.1 = (graph.matchAt text start stop).run d.lexicon := by
  have hregular : ∀ d : Dictionary, (∀ b ∈ d.backends, b.Standard) → Lexicon.Regular d.lexicon :=
    fun d hd => Dictionary.regular_lexicon fun b hb => (hd b hb).regular
  refine ⟨fun lexicon hlexicon n uses q => ?_, hregular, ?_⟩
  · exact (((faithful_ofCapacity lexicon n).after hlexicon uses).answer hlexicon q).1
  · intro d hd n before between language pattern text start stop compiled found graph
    have hlexicon := hregular d hd
    have hbefore := (faithful_ofCapacity d.lexicon n).after hlexicon before
    obtain ⟨hgraph, hcompiled⟩ := hbefore.runWith hlexicon (Graph.compile language pattern)
    have hfound := (hcompiled.after hlexicon between).runWith hlexicon
      (compiled.1.matchAt text start stop)
    exact ⟨hgraph, hfound.1.trans (by rw [show compiled.1 = graph from hgraph])⟩

/-- A cache with room for one answer, over a dictionary with backends of all kinds. -/
theorem cache_transparent_synonym :
    let t := Thesaurus.add {scope := "wn"} "en" .adverb "1" ["good", "well"]
    let digits (w : String) := if w = "done" then "00000000000000d0" else "00000000000000d1"
    let d : Dictionary := ⟨[.failing "off", .ofThesaurus t], some (.identity digits "default")⟩
    let q : Query := ⟨"en", "well", [.verb, .adverb, .verb]⟩
    let before : List Use := [.lookup q, .clear, .lookup q, .compile "en" "[bad]"]
    let text := Text.ofWords ["Well", "done"]
    let compiled := (Graph.compile "en" "[good|RB*] done").runWith (Cache.answer d.lexicon)
      ((ofCapacity 0).after d.lexicon before)
    let found := (compiled.1.matchAt text 0 2).runWith (Cache.answer d.lexicon)
      (compiled.2.after d.lexicon [.matchAt compiled.1 text 1 2])
    (∀ b ∈ d.backends, b.Standard) ∧
      (((ofCapacity 0).after d.lexicon before).answer d.lexicon q).1.toList =
        ["wn~r#1"] ∧ found.1.matchCount = 2 := by
  intro t digits d q before text compiled found
  have hd : ∀ b ∈ d.backends, b.Standard := by
    intro b hb
    rcases (by simpa [Dictionary.backends, d] using hb : b = _ ∨ b = _ ∨ b = _) with rfl | rfl | rfl
    · exact .fails fun q => ⟨_, rfl⟩
    · exact .ofThesaurus t
    · exact .identity digits "default"
  obtain ⟨hanswer, hregular, hmatch⟩ := cache_transparent
  refine ⟨hd, ?_, ?_⟩
  · rw [hanswer d.lexicon (hregular d hd)]
    decide +kernel
  · rw [(hmatch d hd 0 before _ "en" _ text 0 2).2]
    decide +kernel

end Cache
end TokenPatterns
