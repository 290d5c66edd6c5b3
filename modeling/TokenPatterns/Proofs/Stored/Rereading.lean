import TokenPatterns.Matcher
import TokenPatterns.Proofs.Stored.Records
import TokenPatterns.Stored.File
import TokenPatterns.Stored.Text

/-! Texts and configurations that are read back.

A text is read back as it was, with all its tokens, layers and overlays, provided that its positions are
words of memory (`Text.Fits.rereads`). A configuration is read back from what it is stored as, in which fields
that hold their defaults may be left out (`Config.StoredAs`). All these forms are also read back from the
documents that are printed for them; and a configuration is loaded if it is sound, and refused for the fault
that it has otherwise (`forms_reread`). -/
namespace TokenPatterns

open Stored

/-! ### Texts -/

/-- Whether the position of a token is a word of memory. -/
structure TextToken.Fits (t : TextToken) : Prop where
  index : t.index < wordLimit

/-- Whether the positions that a tagging holds are words of memory. -/
structure Tagging.Fits (a : Tagging) : Prop where
  textIndex : a.textIndex < wordLimit
  previous : ∀ position ∈ a.previous, position < wordLimit
  next : ∀ position ∈ a.next, position < wordLimit

/-- Whether the positions that a text holds are words of memory. -/
structure Text.Fits (text : Text) : Prop where
  tokens : ∀ t ∈ text.tokens, t.Fits
  layers : ∀ level layer, text.layer? level = some layer → ∀ a ∈ layer.taggings, a.Fits
  lemmas : ∀ entry ∈ text.lemmas, ∀ t ∈ entry, t.Fits
  encodings : ∀ entry ∈ text.encodings, ∀ t ∈ entry, t.Fits

theorem Level.rereads (level : Level) : Rereads level :=
  ⟨ofLongName?_longName level, .string level.longName⟩

theorem TextToken.Fits.rereads {t : TextToken} (h : t.Fits) : Rereads t := by
  have htext := rereads_string t.text
  have hindex := rereads_nat h.index
  let fields := Fields.named [("text", encode t.text), ("index", encode t.index)]
  have hof : Fields.of? ["text", "index"] (encode t) = some fields :=
    Fields.of?_ofMembers (by simp)
  have htext' : fields.required 0 "text" = some t.text :=
    Fields.required_of_lookup 0 rfl htext.decoded
  have hindex' : fields.required 1 "index" = some t.index :=
    Fields.required_of_lookup 1 rfl hindex.decoded
  refine ⟨?_, .object (List.forall_mem_cons.mpr ⟨htext.printable,
    List.forall_mem_singleton.mpr hindex.printable⟩)⟩
  show (Fields.of? ["text", "index"] (encode t)).bind _ = _
  simp only [hof, Option.bind_some, htext', hindex']
  rfl

theorem Tagging.Fits.rereads {a : Tagging} (h : a.Fits) : Rereads a := by
  have hposition : ∀ o : Option Nat, (∀ position ∈ o, position < wordLimit) → Rereads o := fun o ho =>
    rereads_option (fun _ _ => Json.noConfusion) fun position hp => rereads_nat (ho position hp)
  have hindex := rereads_nat h.textIndex
  have hprevious := hposition a.previous h.previous
  have hnext := hposition a.next h.next
  let fields := Fields.named
    [("level", encode a.level), ("text_index", encode a.textIndex), ("label", encode a.label),
      ("previous", encode a.previous), ("next", encode a.next)]
  have hof : Fields.of? ["level", "text_index", "label", "previous", "next"] (encode a) =
      some fields := Fields.of?_ofMembers (by simp)
  have hlevel' : fields.required 0 "level" = some a.level :=
    Fields.required_of_lookup 0 rfl a.level.rereads.decoded
  have hindex' : fields.required 1 "text_index" = some a.textIndex :=
    Fields.required_of_lookup 1 rfl hindex.decoded
  have hlabel' : fields.required 2 "label" = some a.label :=
    Fields.required_of_lookup 2 rfl (rereads_code a.label).decoded
  have hprevious' : fields.optional 3 "previous" = some a.previous :=
    Fields.optional_of_lookup 3 rfl hprevious.decoded
  have hnext' : fields.optional 4 "next" = some a.next :=
    Fields.optional_of_lookup 4 rfl hnext.decoded
  refine ⟨?_, .object ?_⟩
  · show (Fields.of? ["level", "text_index", "label", "previous", "next"] (encode a)).bind _ = _
    simp only [hof, Option.bind_some, hlevel', hindex', hlabel', hprevious', hnext']
    rfl
  · simp only [List.forall_mem_cons]
    exact ⟨a.level.rereads.printable, hindex.printable, (rereads_code a.label).printable,
      hprevious.printable, hnext.printable, List.forall_mem_nil _⟩

theorem Layer.rereads {layer : Layer} (h : ∀ a ∈ layer.taggings, a.Fits) : Rereads layer := by
  have htaggings : Rereads layer.taggings := rereads_array fun a ha => (h a ha).rereads
  let fields := Fields.named [("tokens", encode layer.taggings)]
  have hof : Fields.of? ["tokens"] (encode layer) = some fields := Fields.of?_ofMembers (by simp)
  have htaggings' : fields.required 0 "tokens" = some layer.taggings :=
    Fields.required_of_lookup 0 rfl htaggings.decoded
  refine ⟨?_, .object (List.forall_mem_singleton.mpr htaggings.printable)⟩
  show (Fields.of? ["tokens"] (encode layer)).bind _ = _
  simp only [hof, Option.bind_some, htaggings']
  rfl

namespace Layers

/-- Layers are read one after another, each under the name of its level. -/
theorem ofMembers?_map {found : List (Level × Layer)} (h : ∀ p ∈ found, Rereads p.2) (layers : Layers) :
    ofMembers? (found.map fun p => (some p.1.longName, encode p.2)) layers =
      some (found.foldl (fun layers p => layers.set p.1 p.2) layers) := by
  induction found generalizing layers with
  | nil => rfl
  | cons p found ih =>
    have hlayer : decode? (encode p.2) = some p.2 := (h p List.mem_cons_self).decoded
    simp only [List.map_cons, ofMembers?, hlayer, Level.ofLongName?_longName, Option.bind_eq_bind,
      Option.bind_some]
    exact ih (fun q hq => h q (List.mem_cons_of_mem _ hq)) _

/-- The layers of some levels, set one after another, are found at these levels. -/
theorem get?_foldl_set (layers start : Layers) (levels : List Level) (level : Level) :
    ((levels.filterMap fun l => (layers.get? l).map (l, ·)).foldl
      (fun layers p => layers.set p.1 p.2) start).get? level =
      if level ∈ levels then (layers.get? level).or (start.get? level) else start.get? level := by
  induction levels generalizing start with
  | nil => rfl
  | cons other levels ih =>
    cases hother : layers.get? other with
    | none =>
      rw [List.filterMap_cons_none (by rw [hother]; rfl), ih]
      by_cases h : level = other
      · rw [h, hother, Option.none_or, ite_self, ite_self]
      · simp only [List.mem_cons, h, false_or]
    | some layer =>
      rw [List.filterMap_cons_some (by rw [hother]; rfl), List.foldl_cons, ih, get?_set]
      by_cases h : level = other
      · rw [h, hother, if_pos rfl, if_pos List.mem_cons_self, Option.some_or, Option.some_or, ite_self]
      · simp only [List.mem_cons, h, false_or, if_neg (Ne.symm h)]

theorem foldl_set_toList (layers : Layers) :
    layers.toList.foldl (fun layers p => layers.set p.1 p.2) {} = layers := by
  refine ext_get? fun level => ?_
  rw [toList, get?_foldl_set, if_pos level.mem_all, get?_empty, Option.or_none]

theorem rereads {layers : Layers}
    (h : ∀ level layer, layers.get? level = some layer → ∀ a ∈ layer.taggings, a.Fits) :
    Rereads layers := by
  have hlayers : ∀ p ∈ layers.toList, Rereads p.2 := by
    intro p hp
    obtain ⟨level, _, hp⟩ := List.mem_filterMap.mp hp
    obtain ⟨layer, hlayer, rfl⟩ := Option.map_eq_some_iff.mp hp
    exact Layer.rereads (h level layer hlayer)
  refine ⟨?_, .object (List.forall_mem_map.mpr fun p hp => (hlayers p hp).printable)⟩
  show ofMembers? ((layers.toList.map _).map _) {} = _
  rw [List.map_map]
  exact (ofMembers?_map hlayers {}).trans (congrArg some (foldl_set_toList layers))

end Layers

theorem Overlay.rereads {overlay : Overlay} (h : ∀ entry ∈ overlay, ∀ t ∈ entry, t.Fits) :
    Rereads overlay :=
  rereads_array fun entry hentry =>
    rereads_option (fun _ _ => Json.noConfusion) fun t ht => (h entry hentry t ht).rereads

theorem Text.Fits.rereads {text : Text} (h : text.Fits) : Rereads text := by
  have htokens : Rereads text.tokens := rereads_array fun t ht => (h.tokens t ht).rereads
  have hlayers := Layers.rereads h.layers
  have hlemmas := Overlay.rereads h.lemmas
  have hencodings := Overlay.rereads h.encodings
  let fields := Fields.named
    [("tokens", encode text.tokens), ("annotations", encode text.layers),
      ("lemmas", encode text.lemmas), ("encodings", encode text.encodings)]
  have hof : Fields.of? ["tokens", "annotations", "lemmas", "encodings"] (encode text) = some fields :=
    Fields.of?_ofMembers (by simp)
  have htokens' : fields.required 0 "tokens" = some text.tokens :=
    Fields.required_of_lookup 0 rfl htokens.decoded
  have hlayers' : fields.required 1 "annotations" = some text.layers :=
    Fields.required_of_lookup 1 rfl hlayers.decoded
  have hlemmas' : fields.required 2 "lemmas" = some text.lemmas :=
    Fields.required_of_lookup 2 rfl hlemmas.decoded
  have hencodings' : fields.required 3 "encodings" = some text.encodings :=
    Fields.required_of_lookup 3 rfl hencodings.decoded
  refine ⟨?_, .object ?_⟩
  · show (Fields.of? ["tokens", "annotations", "lemmas", "encodings"] (encode text)).bind _ = _
    simp only [hof, Option.bind_some, htokens', hlayers', hlemmas', hencodings']
    rfl
  · simp only [List.forall_mem_cons]
    exact ⟨htokens.printable, hlayers.printable, hlemmas.printable, hencodings.printable,
      List.forall_mem_nil _⟩

/-! ### Configurations -/

/-- What a pattern definition may be stored as: an object in which the styles and the language may be left
out if there are none. -/
inductive PatternDefinition.StoredAs (d : PatternDefinition) : Json → Prop
  | object {styles language : List (String × Json)} :
      Member "styles" (encode d.styles) (d.styles = none) styles →
      Member "language" (encode d.language) (d.language = none) language →
      StoredAs d (Json.ofMembers
        ([("id", encode d.id), ("pattern", encode d.pattern)] ++ styles ++ language))

/-- What a configuration may be stored as: an object in which the language may be left out if it is the
default, and the patterns if there are none. -/
inductive Config.StoredAs (c : Config) : Json → Prop
  | object {definitions : List Json} {language patterns : List (String × Json)} :
      List.Forall₂ PatternDefinition.StoredAs c.patterns definitions →
      Member "language" (encode c.language) (c.language = Graph.defaultLanguage) language →
      Member "patterns" (.array definitions) (c.patterns = []) patterns →
      StoredAs c (Json.ofMembers (language ++ patterns))

theorem PatternDefinition.storedAs_encode (d : PatternDefinition) : d.StoredAs (encode d) :=
  .object .written .written

theorem Config.storedAs_encode (c : Config) : c.StoredAs (encode c) := by
  have hdefinitions : List.Forall₂ PatternDefinition.StoredAs c.patterns (c.patterns.map encode) := by
    rw [List.forall₂_map_right_iff, List.forall₂_same]
    exact fun d _ => d.storedAs_encode
  exact .object hdefinitions .written .written

/-- A pattern definition is read back from whatever it is stored as. -/
theorem PatternDefinition.StoredAs.decode? {d : PatternDefinition} {v : Json} (h : d.StoredAs v) :
    Stored.decode? v = some d := by
  obtain @⟨styles, language, hstyles, hlanguage⟩ := h
  let members := [("id", encode d.id), ("pattern", encode d.pattern)] ++ styles ++ language
  have hnames : (members.map (·.1)).Sublist ["id", "pattern", "styles", "language"] := by
    rw [List.map_append, List.map_append]
    exact ((List.Sublist.refl ["id", "pattern"]).append hstyles.names).append hlanguage.names
  have hof : Fields.of? ["id", "pattern", "styles", "language"] (Json.ofMembers members) =
      some (.named members) := Fields.of?_ofMembers (.sublist hnames (by simp))
  have hid : (Fields.named members).required 0 "id" = some d.id :=
    Fields.required_of_lookup 0 rfl (rereads_string _).decoded
  have hpattern : (Fields.named members).required 1 "pattern" = some d.pattern :=
    Fields.required_of_lookup 1 rfl (rereads_string _).decoded
  have hlookup : ∀ name, members.lookup name =
      (([("id", encode d.id), ("pattern", encode d.pattern)].lookup name).or
        (styles.lookup name)).or (language.lookup name) := fun name => by
    rw [List.lookup_append, List.lookup_append]
  have hstyles' : (Fields.named members).defaulted 2 "styles" none = some d.styles := by
    refine hstyles.defaulted (rereads_optional_string _).decoded (fun h => h) ?_ 2
    rw [hlookup, hlanguage.lookup_of_ne (by decide), Option.or_none]
    rfl
  have hlanguage' : (Fields.named members).defaulted 3 "language" none = some d.language := by
    refine hlanguage.defaulted (rereads_optional_string _).decoded (fun h => h) ?_ 3
    rw [hlookup, hstyles.lookup_of_ne (by decide)]
    rfl
  show (Fields.of? ["id", "pattern", "styles", "language"] (Json.ofMembers members)).bind _ = _
  simp only [hof, Option.bind_some, hid, hpattern, hstyles', hlanguage']
  rfl

/-- A configuration is read back from whatever it is stored as. -/
theorem Config.StoredAs.decode? {c : Config} {v : Json} (h : c.StoredAs v) :
    Stored.decode? v = some c := by
  obtain @⟨definitions, language, patterns, hdefinitions, hlanguage, hpatterns⟩ := h
  let members := language ++ patterns
  have hnames : (members.map (·.1)).Sublist ["language", "patterns"] := by
    rw [List.map_append]
    exact hlanguage.names.append hpatterns.names
  have hof : Fields.of? ["language", "patterns"] (Json.ofMembers members) = some (.named members) :=
    Fields.of?_ofMembers (.sublist hnames (by simp))
  have hlanguage' : (Fields.named members).defaulted 0 "language" Graph.defaultLanguage =
      some c.language := by
    refine hlanguage.defaulted (rereads_string _).decoded (fun h => h) ?_ 0
    rw [List.lookup_append, hpatterns.lookup_of_ne (by decide), Option.or_none]
  have hpatterns' : (Fields.named members).defaulted 1 "patterns" [] = some c.patterns := by
    refine hpatterns.defaulted (mapM_decode?_eq_some (hdefinitions.imp fun _ _ h => h.decode?))
      (fun h => h) ?_ 1
    rw [List.lookup_append, hlanguage.lookup_of_ne (by decide), Option.none_or]
  show (Fields.of? ["language", "patterns"] (Json.ofMembers members)).bind _ = _
  simp only [hof, Option.bind_some, hlanguage', hpatterns']
  rfl

/-- What is loaded from a stored configuration is the configuration if it is sound, and its fault
otherwise. -/
theorem Config.StoredAs.ofJson {c : Config} {v : Json} (h : c.StoredAs v) :
    Config.ofJson v = c.validate := by
  have hload : (Stored.load v : Except Error Config) = .ok c := Stored.load_eq_ok_iff.mpr h.decode?
  rw [Config.ofJson, hload]
  rfl

/-! ### Documents -/

/-- A value is read back from the document that is printed for its stored form. -/
theorem Stored.Rereads.read {α : Type} [Stored α] {a : α} (h : Rereads a) :
    Stored.read (encode a).print = .ok a := by
  have hload : (Stored.load (encode a) : Except Error α) = .ok a := Stored.load_eq_ok_iff.mpr h.decoded
  rw [Stored.read, Json.read, h.printable.parse?_print]
  exact hload

theorem PatternDefinition.StoredAs.printable {d : PatternDefinition} {v : Json} (h : d.StoredAs v) :
    v.Printable := by
  obtain @⟨styles, language, hstyles, hlanguage⟩ := h
  refine .object ?_
  simp only [List.forall_mem_append, List.forall_mem_cons]
  exact ⟨⟨⟨.string d.id, .string d.pattern, List.forall_mem_nil _⟩,
    hstyles.printable (rereads_optional_string _).printable⟩,
    hlanguage.printable (rereads_optional_string _).printable⟩

theorem PatternDefinition.printable_of_storedAs {ds : List PatternDefinition} {vs : List Json}
    (h : List.Forall₂ StoredAs ds vs) : ∀ v ∈ vs, v.Printable := by
  induction h with
  | nil => exact List.forall_mem_nil _
  | cons hd _ ih => exact List.forall_mem_cons.mpr ⟨hd.printable, ih⟩

theorem Config.StoredAs.printable {c : Config} {v : Json} (h : c.StoredAs v) : v.Printable := by
  obtain @⟨definitions, language, patterns, hdefinitions, hlanguage, hpatterns⟩ := h
  have hdefinitions' := Json.Printable.array (PatternDefinition.printable_of_storedAs hdefinitions)
  exact .object (List.forall_mem_append.mpr
    ⟨hlanguage.printable (.string c.language), hpatterns.printable hdefinitions'⟩)

theorem Config.ofDocument_of_parse {document : String} {v : Json}
    (h : Json.parse? document = some v) : Config.ofDocument document = Config.ofJson v := by
  rw [Config.ofDocument, Json.read, h]
  rfl

/-! ### Stored forms -/

/-- A text whose positions are words of memory is read back with the same tokens, layers and overlays, so
that everything matches in it as before. A configuration is stored as an object in which any fields that
hold their defaults may be left out; from each such object, from what is printed for it and from each other
document that is read as it, the configuration is loaded if it is sound, and the answer is its own fault
otherwise. -/
theorem forms_reread :
    (∀ text : Text, text.Fits → ∃ read : Text, decode? (encode text) = some read ∧
      Stored.read (encode text).print = .ok read ∧
      read.tokens = text.tokens ∧ read.layers = text.layers ∧ read.lemmas = text.lemmas ∧
      read.encodings = text.encodings ∧
      ∀ (m : Matcher) (first stop : Nat), m.matchAt read first stop = m.matchAt text first stop) ∧
    (∀ c : Config, c.StoredAs (encode c) ∧ ∀ v, c.StoredAs v →
      Config.ofJson v = c.validate ∧ Config.ofDocument v.print = c.validate ∧
      ∀ document, Json.parse? document = some v → Config.ofDocument document = c.validate) ∧
    ∀ c : Config, (∀ read, c.validate = .ok read → read = c) ∧
      ∀ e, c.validate = .error e → e.area = .config := by
  have hdocument : ∀ (c : Config) (v : Json), c.StoredAs v → ∀ document,
      Json.parse? document = some v → Config.ofDocument document = c.validate :=
    fun c v h document hparse => by rw [Config.ofDocument_of_parse hparse, h.ofJson]
  refine ⟨fun text h => ⟨text, h.rereads.decoded, h.rereads.read, rfl, rfl, rfl, rfl, fun _ _ _ => rfl⟩,
    fun c => ⟨c.storedAs_encode, fun v h =>
      ⟨h.ofJson, hdocument c v h _ h.printable.parse?_print, hdocument c v h⟩⟩,
    fun c => ⟨fun read hread => ?_, fun e he => ?_⟩⟩
  · rw [Config.validate] at hread
    split at hread
    · cases hread
    · exact (Except.ok.inj hread).symm
  · rw [Config.validate] at he
    split at he
    · next hfault =>
      rw [← Except.error.inj he]
      rw [Config.fault?] at hfault
      split at hfault
      · rw [← Option.some.inj hfault]
        rfl
      · obtain ⟨d, _, rfl⟩ := Option.map_eq_some_iff.mp hfault
        rfl
    · cases he

/-- A text with linked taggings and gaps in its overlays, a sound configuration of which a document leaves
out what it can, and one that is refused for a blank identifier. -/
theorem forms_reread_abridged :
    let text : Text :=
      { tokens := #[⟨"a", 0⟩, ⟨"b", 7⟩]
        layers := { ner := some ⟨#[⟨.ner, 0, -1, none, some 1⟩, ⟨.pos, 1, 2, some 0, none⟩]⟩ }
        lemmas := #[none, some ⟨"c", 0⟩]
        encodings := #[some ⟨"d", 3⟩] }
    let document := "\x7b\"patterns\": [\x7b\"id\": \"a\", \"pattern\": \"x\", \"language\": \"fr\"\x7d]\x7d"
    let sound : Config := { patterns := [⟨"a", "x", none, some "fr"⟩] }
    let refused : Config := { patterns := [⟨" ", "x", none, none⟩] }
    (text.Fits ∧ ∃ read : Text, Stored.read (encode text).print = .ok read ∧ read.lemmas = text.lemmas) ∧
      Config.ofDocument document = .ok sound ∧
      Config.ofDocument (encode refused).print = .error (.blankId "x") ∧
      (Error.blankId "x").area = .config := by
  intro text document sound refused
  obtain ⟨htexts, hconfigs, hanswers⟩ := forms_reread
  have htext : text.Fits := by
    refine ⟨fun t ht => ⟨?_⟩, fun level layer hlayer => ?_, fun entry hentry t ht => ⟨?_⟩,
      fun entry hentry t ht => ⟨?_⟩⟩
    · simp only [text, List.mem_toArray, List.mem_cons, List.not_mem_nil, or_false] at ht
      rcases ht with rfl | rfl <;> decide
    · cases level <;> cases hlayer
      intro a ha
      simp only [List.mem_toArray, List.mem_cons, List.not_mem_nil, or_false] at ha
      rcases ha with rfl | rfl
      · exact ⟨by decide, by decide, by decide⟩
      · exact ⟨by decide, by decide, by decide⟩
    · simp only [text, List.mem_toArray, List.mem_cons, List.not_mem_nil, or_false] at hentry
      rcases hentry with rfl | rfl <;> cases ht
      decide
    · simp only [text, List.mem_toArray, List.mem_cons, List.not_mem_nil, or_false] at hentry
      subst hentry
      cases ht
      decide
  obtain ⟨read, -, hread, -, -, hlemmas, -⟩ := htexts text htext
  let pattern := Json.ofMembers
    ([("id", encode "a"), ("pattern", encode "x")] ++ [] ++ [("language", encode "fr")])
  have hpattern : PatternDefinition.StoredAs ⟨"a", "x", none, some "fr"⟩ pattern :=
    .object (.leftOut rfl) .written
  have hsound : sound.StoredAs (Json.ofMembers ([] ++ [("patterns", .array [pattern])])) :=
    .object (.cons hpattern .nil) (.leftOut rfl) .written
  have hvalid : sound.validate = .ok sound := by decide +kernel
  have hinvalid : refused.validate = .error (.blankId "x") := by decide +kernel
  have hparse : Json.parse? document =
      some (Json.ofMembers ([] ++ [("patterns", .array [pattern])])) := by
    dsimp only [document, pattern]
    rfl
  refine ⟨⟨htext, read, hread, hlemmas⟩, ?_, ?_, (hanswers refused).2 _ hinvalid⟩
  · rw [((hconfigs sound).2 _ hsound).2.2 document hparse, hvalid]
  · rw [((hconfigs refused).2 _ (hconfigs refused).1).2.1, hinvalid]

end TokenPatterns
