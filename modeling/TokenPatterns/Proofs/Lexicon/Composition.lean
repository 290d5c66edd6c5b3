import Mathlib.Data.List.Basic
import TokenPatterns.Lexicon.Session
import TokenPatterns.Pattern.Walk
import TokenPatterns.Proofs.Lexicon.Questions

/-! What a dictionary makes of its backends.

A dictionary answers with what its extensions give (`Dictionary.mem_synsets_of_someGives`), and with
what its fallback gives if they give nothing (`Dictionary.mem_synsets_of_not_someGives`). What some
extensions give depends neither on their order nor on their repeats nor on those among them that
fail (`Backend.Rearranged.someGives_iff`). So a session whose dictionary has its extensions
rearranged finds the same answers, and its cache and its logs stay the same
(`Session.run_backedBy`). -/
namespace TokenPatterns

namespace Backend

/-- A backend gives an identifier if its lookup succeeds with it. -/
def Gives (b : Backend) (q : Query) (i : SynsetId) : Prop := ∃ ids, b.lookup q = .ok ids ∧ i ∈ ids

def FailsOn (b : Backend) (q : Query) : Prop := ∃ e, b.lookup q = .error e

/-- Some backend among these gives an identifier. -/
def SomeGives (bs : List Backend) (q : Query) (i : SynsetId) : Prop := ∃ b ∈ bs, b.Gives q i

/-- Equal up to order, repeats and backends that fail on a question. -/
inductive Rearranged (q : Query) : List Backend → List Backend → Prop
  | perm {bs cs : List Backend} : bs.Perm cs → Rearranged q bs cs
  | repeated {b : Backend} {front back : List Backend} :
      b ∈ front ++ back → Rearranged q (front ++ back) (front ++ b :: back)
  | failing {b : Backend} {front back : List Backend} :
      b.FailsOn q → Rearranged q (front ++ back) (front ++ b :: back)
  | symm {bs cs : List Backend} : Rearranged q bs cs → Rearranged q cs bs
  | trans {bs cs ds : List Backend} : Rearranged q bs cs → Rearranged q cs ds → Rearranged q bs ds

variable {b : Backend} {bs cs front back : List Backend} {q : Query} {i : SynsetId}

theorem mem_answer_iff : i ∈ b.answer q ↔ b.Gives q i := by
  unfold answer Gives
  cases b.lookup q with
  | ok ids => simp
  | error e => simp

theorem FailsOn.not_gives (h : b.FailsOn q) : ¬b.Gives q i := by
  obtain ⟨e, he⟩ := h
  rintro ⟨ids, hids, _⟩
  cases he.symm.trans hids

theorem someGives_cons : SomeGives (b :: bs) q i ↔ b.Gives q i ∨ SomeGives bs q i :=
  List.exists_mem_cons_iff ..

theorem someGives_perm (h : bs.Perm cs) : SomeGives bs q i ↔ SomeGives cs q i :=
  exists_congr fun _ => and_congr_left' h.mem_iff

theorem someGives_insert :
    SomeGives (front ++ b :: back) q i ↔ b.Gives q i ∨ SomeGives (front ++ back) q i :=
  (someGives_perm List.perm_middle).trans someGives_cons

/-- What the answers of some backends add to a set. -/
theorem mem_foldl_answer (bs : List Backend) (ids : SynsetSet) :
    i ∈ bs.foldl (fun ids b => ids ∪ b.answer q) ids ↔ i ∈ ids ∨ SomeGives bs q i := by
  induction bs generalizing ids with
  | nil => simp [SomeGives]
  | cons b bs ih =>
    rw [List.foldl_cons, ih, Std.ExtTreeSet.mem_union_iff, mem_answer_iff, or_assoc, someGives_cons]

/-- Rearranged backends give the same. -/
theorem Rearranged.someGives_iff (h : Rearranged q bs cs) : SomeGives bs q i ↔ SomeGives cs q i := by
  induction h with
  | perm h => exact someGives_perm h
  | repeated hb =>
    rw [someGives_insert]
    exact (or_iff_right_of_imp fun hi => ⟨_, hb, hi⟩).symm
  | failing hb =>
    rw [someGives_insert]
    exact (or_iff_right hb.not_gives).symm
  | symm _ ih => exact ih.symm
  | trans _ _ ih ih' => exact ih.trans ih'

end Backend

namespace Dictionary

open Backend (SomeGives)

variable {d e : Dictionary} {q : Query} {i : SynsetId}

/-! ### Answers -/

theorem mem_gathered_iff : i ∈ d.gathered q ↔ SomeGives d.extensions q i :=
  (Backend.mem_foldl_answer d.extensions ∅).trans (or_iff_right Std.ExtTreeSet.not_mem_empty)

theorem isEmpty_gathered_iff :
    (d.gathered q).isEmpty = true ↔ ∀ i, ¬SomeGives d.extensions q i := by
  rw [SynsetSet.isEmpty_iff_forall_not_mem]
  exact forall_congr' fun i => not_congr mem_gathered_iff

/-- The answer if the extensions give something. -/
theorem mem_synsets_of_someGives {j : SynsetId} (h : SomeGives d.extensions (posed q) j) :
    i ∈ d.synsets q ↔ SomeGives d.extensions (posed q) i := by
  have hgathered : ¬(d.gathered (posed q)).isEmpty = true := by
    rw [isEmpty_gathered_iff]
    exact fun hnone => hnone j h
  rw [synsets, if_neg hgathered, mem_gathered_iff]

/-- The answer if they give nothing. -/
theorem mem_synsets_of_not_someGives (h : ∀ j, ¬SomeGives d.extensions (posed q) j) :
    i ∈ d.synsets q ↔ ∃ b ∈ d.fallback, b.Gives (posed q) i := by
  rw [synsets, if_pos (isEmpty_gathered_iff.mpr h)]
  cases d.fallback with
  | none => simp
  | some b => simp [Backend.mem_answer_iff]

/-- A question that leaves the class open is one for every class. -/
theorem synsets_nil (d : Dictionary) (language word : String) :
    d.synsets ⟨language, word, []⟩ = d.synsets ⟨language, word, WordClass.all⟩ := by
  have hposed : posed ⟨language, word, []⟩ = posed ⟨language, word, WordClass.all⟩ := by
    rw [posed_eq, posed_eq, WordClass.orAll_nil, WordClass.orAll_all]
  rw [synsets, synsets, hposed]

/-- Rearranged extensions answer alike, and leave the same questions to the fallback. -/
theorem synsets_eq_of_rearranged (hfallback : d.fallback = e.fallback)
    (h : Backend.Rearranged (posed q) d.extensions e.extensions) : d.synsets q = e.synsets q := by
  have hgathered : d.gathered (posed q) = e.gathered (posed q) :=
    Std.ExtTreeSet.ext_mem fun _ => by rw [mem_gathered_iff, mem_gathered_iff, h.someGives_iff]
  rw [synsets, synsets, hgathered, hfallback]

/-- The same dictionary with its extensions rearranged. -/
structure Variant (d e : Dictionary) : Prop where
  fallback : d.fallback = e.fallback
  extensions : ∀ q, Backend.Rearranged q d.extensions e.extensions

theorem Variant.synsets_eq (h : d.Variant e) (q : Query) : d.synsets q = e.synsets q :=
  synsets_eq_of_rearranged h.fallback (h.extensions (posed q))

end Dictionary

namespace Session

/-! ### Sessions over two dictionaries -/

/-- The session with another dictionary behind it. -/
def backedBy (s : Session) (e : Dictionary) : Session := {s with dictionary := e}

variable {s : Session} {e : Dictionary}

theorem dictionary_answer (s : Session) (q : Query) : (s.answer q).2.dictionary = s.dictionary := by
  rw [answer]
  cases s.cache with
  | none => rfl
  | some c => rfl

theorem answer_backedBy (h : s.dictionary.Variant e) (q : Query) :
    (s.backedBy e).answer q = ((s.answer q).1, (s.answer q).2.backedBy e) := by
  have hconsult : consult e = consult s.dictionary := by
    funext q reached
    rw [consult, consult, h.synsets_eq]
  simp only [answer, backedBy, hconsult]
  cases s.cache with
  | none => rfl
  | some c => rfl

/-- With a variant of its dictionary behind it, a session does the same. -/
theorem run_backedBy {α : Type} (h : s.dictionary.Variant e) (x : Inquiry α) :
    (s.backedBy e).run x = ((s.run x).1, (s.run x).2.backedBy e) ∧
      (s.run x).2.dictionary.Variant e := by
  have hstep : ∀ (q : Query) (s t : Session), s.dictionary.Variant e ∧ t = s.backedBy e →
      (s.answer q).1 = (t.answer q).1 ∧
        ((s.answer q).2.dictionary.Variant e ∧ (t.answer q).2 = (s.answer q).2.backedBy e) := by
    rintro q s t ⟨hs, rfl⟩
    rw [answer_backedBy hs, dictionary_answer]
    exact ⟨rfl, hs, rfl⟩
  obtain ⟨hresult, hvariant, hsession⟩ := Inquiry.runWith_related hstep x ⟨h, rfl⟩
  exact ⟨Prod.ext hresult.symm hsession, hvariant⟩

end Session

namespace Dictionary

open Backend (SomeGives)

/-- A dictionary answers with all that its extensions give, whichever of them fail; if they give
nothing, it answers with what its fallback gives, and without a fallback, or if that fails too, with
nothing. So what the fallback gives never stands beside what an extension gives. A question without
classes has the answer to that with every class. Rearranging the extensions changes no answer, and
where no answer changes, nothing else does: a session compiles each pattern to the same graph, finds
the same match in every range of every text, and its cache and its logs are the same. -/
theorem synsets_of_backends (d : Dictionary) :
    (∀ q i,
      ((∃ j, SomeGives d.extensions (posed q) j) →
        (i ∈ d.synsets q ↔ SomeGives d.extensions (posed q) i)) ∧
      ((∀ j, ¬SomeGives d.extensions (posed q) j) →
        (i ∈ d.synsets q ↔ ∃ b ∈ d.fallback, b.Gives (posed q) i)) ∧
      (i ∈ d.synsets q → SomeGives d.extensions (posed q) i →
        ∀ j ∈ d.synsets q, SomeGives d.extensions (posed q) j)) ∧
    (∀ language word,
      d.synsets ⟨language, word, []⟩ = d.synsets ⟨language, word, WordClass.all⟩) ∧
    (∀ q (e : Dictionary), d.fallback = e.fallback →
      Backend.Rearranged (posed q) d.extensions e.extensions → d.synsets q = e.synsets q) ∧
    ∀ e, d.Variant e → ∀ s : Session, s.dictionary = d →
      ∀ (language pattern : String) (text : Text) (start stop : Nat),
      let compiled := s.run (Graph.compile language pattern)
      let found := compiled.2.run (compiled.1.matchAt text start stop)
      (s.backedBy e).run (Graph.compile language pattern) = (compiled.1, compiled.2.backedBy e) ∧
        (compiled.2.backedBy e).run (compiled.1.matchAt text start stop) =
          (found.1, found.2.backedBy e) := by
  refine ⟨fun q i => ⟨?_, ?_, ?_⟩, d.synsets_nil, ?_, ?_⟩
  · rintro ⟨j, hj⟩
    exact mem_synsets_of_someGives hj
  · intro hnone
    exact mem_synsets_of_not_someGives hnone
  · intro _ hi j hj
    exact (mem_synsets_of_someGives hi).mp hj
  · intro q e hfallback h
    exact synsets_eq_of_rearranged hfallback h
  · rintro e h s rfl language pattern text start stop compiled found
    obtain ⟨hcompile, hvariant⟩ := Session.run_backedBy h (Graph.compile language pattern)
    exact ⟨hcompile, (Session.run_backedBy hvariant _).1⟩

/-- Two extensions that change places, one of them repeated, with a failing one in front and between
them. -/
theorem synsets_of_backends_shuffled :
    let t : Backend := .ofThesaurus (Thesaurus.add {scope := "wn"} "en" .adverb "1" ["good", "well"])
    let p : Backend := .probe "fixed" ["good"]
    let f : Backend := .failing "off"
    let digits (w : String) := if w = "done" then "00000000000000d0" else "00000000000000d1"
    let d : Dictionary := ⟨[p, t], some (.identity digits "default")⟩
    let e : Dictionary := ⟨[f, t, p, f, t], some (.identity digits "default")⟩
    let s : Session := {dictionary := d, cache := some (.ofCapacity 0)}
    let q : Query := ⟨"en", "well", [.adverb]⟩
    let other : Query := ⟨"en", "done", []⟩
    let text := Text.ofWords ["Well", "done"]
    let compiled := s.run (Graph.compile "en" "[good|RB*] done")
    let found := compiled.2.run (compiled.1.matchAt text 0 2)
    "wn~r#1" ∈ d.synsets q ∧ (∀ j ∈ d.synsets q, SomeGives d.extensions (posed q) j) ∧
      "default#00000000000000d0" ∈ d.synsets other ∧
      d.synsets other = d.synsets {other with classes := WordClass.all} ∧
      d.Variant e ∧ d.synsets q = e.synsets q ∧
      (s.backedBy e).run (Graph.compile "en" "[good|RB*] done") = (compiled.1, compiled.2.backedBy e) ∧
      (compiled.2.backedBy e).run (compiled.1.matchAt text 0 2) = (found.1, found.2.backedBy e) ∧
      found.1.matchCount = 2 := by
  intro t p f digits d e s q other text compiled found
  obtain ⟨hmem, hopen, hsynsets, hsession⟩ := synsets_of_backends d
  have hgives : SomeGives d.extensions (posed q) "wn~r#1" :=
    ⟨t, by simp [d], _, rfl, by decide +kernel⟩
  have hnone : ∀ j, ¬SomeGives d.extensions (posed other) j :=
    isEmpty_gathered_iff.mp (by decide +kernel)
  have hvariant : d.Variant e := by
    refine ⟨rfl, fun r => ?_⟩
    have hswap : Backend.Rearranged r [p, t] [t, p] := .perm (.swap t p [])
    have hagain : Backend.Rearranged r [t, p] [t, p, t] :=
      @Backend.Rearranged.repeated r t [t, p] [] List.mem_cons_self
    have hbetween : Backend.Rearranged r [t, p, t] [t, p, f, t] :=
      @Backend.Rearranged.failing r f [t, p] [t] ⟨_, rfl⟩
    have hfront : Backend.Rearranged r [t, p, f, t] [f, t, p, f, t] :=
      @Backend.Rearranged.failing r f [] [t, p, f, t] ⟨_, rfl⟩
    exact ((hswap.trans hagain).trans hbetween).trans hfront
  have hfound : "wn~r#1" ∈ d.synsets q := ((hmem q _).1 ⟨_, hgives⟩).mpr hgives
  refine ⟨hfound, (hmem q _).2.2 hfound hgives, ?_, hopen "en" "done", hvariant,
    hsynsets q e rfl (hvariant.extensions _), ?_⟩
  · exact ((hmem other _).2.1 hnone).mpr ⟨_, rfl, _, rfl, by decide +kernel⟩
  · obtain ⟨hcompile, hmatch⟩ := hsession e hvariant s rfl "en" "[good|RB*] done" text 0 2
    exact ⟨hcompile, hmatch, by decide +kernel⟩

end Dictionary
end TokenPatterns
