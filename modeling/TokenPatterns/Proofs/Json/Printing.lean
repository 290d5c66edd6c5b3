import TokenPatterns.Json.Reader
import TokenPatterns.Proofs.Json.Scanning

/-! Printed values are read back.

The document of a value is read as tokens, and the tokens are built into the value again. Both happen piece
by piece: a first item is read like a value of its own, and each further one together with the comma before
it. Values that hold a number that is no integer, or a string that is no text, are left aside, as the
document does not show all that they hold. -/
namespace TokenPatterns.Json

/-- A value whose numbers are integers and whose strings are texts. -/
inductive Printable : Json → Prop
  | null : Printable .null
  | bool (b : Bool) : Printable (.bool b)
  | integer (n : Int) : Printable (.integer n)
  | string (s : String) : Printable (ofString s)
  | array {items : List Json} : (∀ v ∈ items, Printable v) → Printable (.array items)
  | object {members : List (String × Json)} :
      (∀ m ∈ members, Printable m.2) → Printable (ofMembers members)

variable {cs ds : List Char} {ts us : List Token} {v : Json} {key : String}

/-! ### Building -/

/-- Whether tokens are built into a value where one is awaited. -/
def Builds (ts : List Token) (v : Json) : Prop :=
  ∀ frames expected, expected = .value ∨ expected = .itemOrEnd →
    ts.foldlM Builder.step? ⟨frames, expected⟩ = some ⟨frames, .after v⟩

/-- Whether tokens are built into further items of an array. -/
def BuildsItems (ts : List Token) (items : List Json) : Prop :=
  ∀ frames before v, ∃ before' v',
    ts.foldlM Builder.step? ⟨.array before :: frames, .after v⟩ =
      some ⟨.array before' :: frames, .after v'⟩ ∧ v' :: before' = items.reverse ++ v :: before

/-- Whether tokens are built into further members of an object. -/
def BuildsMembers (ts : List Token) (members : List (Json.Text × Json)) : Prop :=
  ∀ frames before key v, ∃ before' key' v',
    ts.foldlM Builder.step? ⟨.object before key :: frames, .after v⟩ =
      some ⟨.object before' key' :: frames, .after v'⟩ ∧
    (key', v') :: before' = members.reverse ++ (key, v) :: before

theorem builds_scalar (v : Json) : Builds [.scalar v] v := by
  rintro frames _ (rfl | rfl) <;> rfl

theorem builds_string (s : String) : Builds [.string (some s)] (ofString s) := by
  rintro frames _ (rfl | rfl) <;> rfl

theorem builds_array_nil : Builds [.beginArray, .endArray] (.array []) := by
  rintro frames _ (rfl | rfl) <;> rfl

theorem builds_object_nil : Builds [.beginObject, .endObject] (.object []) := by
  rintro frames _ (rfl | rfl) <;> rfl

theorem BuildsItems.nil : BuildsItems [] [] := fun _ before v => ⟨before, v, rfl, rfl⟩

theorem BuildsItems.cons {items : List Json} (h : Builds ts v) (hs : BuildsItems us items) :
    BuildsItems (.comma :: (ts ++ us)) (v :: items) := by
  intro frames before first
  obtain ⟨before', v', hbuild, heq⟩ := hs frames (first :: before) v
  refine ⟨before', v', ?_, by rw [heq, List.reverse_cons, List.append_assoc]; rfl⟩
  show List.foldlM Builder.step? ⟨.array (first :: before) :: frames, .value⟩ (ts ++ us) = _
  rw [List.foldlM_append, h _ _ (.inl rfl)]
  exact hbuild

theorem Builds.array {items : List Json} (h : Builds ts v) (hs : BuildsItems us items) :
    Builds (.beginArray :: (ts ++ (us ++ [.endArray]))) (.array (v :: items)) := by
  intro frames expected hexpected
  obtain ⟨before, v', hbuild, heq⟩ := hs frames [] v
  have hbegin : Builder.step? ⟨frames, expected⟩ .beginArray =
      some ⟨.array [] :: frames, .itemOrEnd⟩ := by
    rcases hexpected with rfl | rfl <;> rfl
  have hitems : (v' :: before).reverse = v :: items := by
    rw [heq, List.reverse_append, List.reverse_reverse]
    rfl
  rw [List.foldlM_cons, hbegin]
  show List.foldlM Builder.step? ⟨.array [] :: frames, .itemOrEnd⟩ (ts ++ (us ++ [.endArray])) = _
  rw [List.foldlM_append, h _ _ (.inr rfl)]
  show List.foldlM Builder.step? ⟨.array [] :: frames, .after v⟩ (us ++ [.endArray]) = _
  rw [List.foldlM_append, hbuild, ← hitems]
  rfl

theorem BuildsMembers.nil : BuildsMembers [] [] := fun _ before key v => ⟨before, key, v, rfl, rfl⟩

theorem BuildsMembers.cons {members : List (Json.Text × Json)} (h : Builds ts v)
    (hs : BuildsMembers us members) :
    BuildsMembers (.comma :: (.string (some key) :: .colon :: ts ++ us)) ((some key, v) :: members) := by
  intro frames before first firstValue
  obtain ⟨before', key', v', hbuild, heq⟩ := hs frames ((first, firstValue) :: before) (some key) v
  refine ⟨before', key', v', ?_, by rw [heq, List.reverse_cons, List.append_assoc]; rfl⟩
  show List.foldlM Builder.step? ⟨.object ((first, firstValue) :: before) (some key) :: frames, .value⟩
    (ts ++ us) = _
  rw [List.foldlM_append, h _ _ (.inl rfl)]
  exact hbuild

theorem Builds.object {members : List (Json.Text × Json)} (h : Builds ts v)
    (hs : BuildsMembers us members) :
    Builds (.beginObject :: (.string (some key) :: .colon :: ts ++ (us ++ [.endObject])))
      (.object ((some key, v) :: members)) := by
  intro frames expected hexpected
  obtain ⟨before, key', v', hbuild, heq⟩ := hs frames [] (some key) v
  have hbegin : Builder.step? ⟨frames, expected⟩ .beginObject = some ⟨frames, .keyOrEnd⟩ := by
    rcases hexpected with rfl | rfl <;> rfl
  have hmembers : ((key', v') :: before).reverse = (some key, v) :: members := by
    rw [heq, List.reverse_append, List.reverse_reverse]
    rfl
  rw [List.foldlM_cons, hbegin]
  show List.foldlM Builder.step? ⟨.object [] (some key) :: frames, .value⟩
    (ts ++ (us ++ [.endObject])) = _
  rw [List.foldlM_append, h _ _ (.inl rfl)]
  show List.foldlM Builder.step? ⟨.object [] (some key) :: frames, .after v⟩ (us ++ [.endObject]) = _
  rw [List.foldlM_append, hbuild, ← hmembers]
  rfl

/-! ### Printing -/

/-- Whether a value is read back from what is written for it, behind whatever has been written before. -/
def ReadsBack (v : Json) : Prop :=
  ∀ out, ∃ cs ts, (printOn out v).toList = out.toList ++ cs ∧ Scans cs ts ∧ Builds ts v

theorem readsBack_word {word : String} (hprint : ∀ out, printOn out v = out ++ word)
    (hword : IsWord word.toList v) : ReadsBack v := fun out =>
  ⟨word.toList, [.scalar v], by rw [hprint, String.toList_append], hword.scans, builds_scalar v⟩

theorem punctuates_comma : Punctuates ',' .comma := ⟨rfl, fun _ => rfl⟩

/-- Each further item is written with a comma before it. -/
theorem readsBack_items {items : List Json} (h : ∀ v ∈ items, ReadsBack v) (out : String) :
    ∃ cs ts, (printItems out "," items).toList = out.toList ++ cs ∧ ScansOn cs ts ∧
      BuildsItems ts items := by
  induction items generalizing out with
  | nil => exact ⟨[], [], (List.append_nil _).symm, .nil, .nil⟩
  | cons v items ih =>
    obtain ⟨cs, ts, hcs, hscan, hbuild⟩ := h v List.mem_cons_self (out ++ ",")
    obtain ⟨ds, us, hds, hscans, hbuilds⟩ :=
      ih (fun w hw => h w (List.mem_cons_of_mem _ hw)) (printOn (out ++ ",") v)
    refine ⟨',' :: (cs ++ ds), .comma :: (ts ++ us), ?_,
      punctuates_comma.scansOn (hscan.append hscans), BuildsItems.cons hbuild hbuilds⟩
    rw [printItems, hds, hcs, String.toList_append, List.append_assoc, List.append_assoc]
    rfl

/-- A member is written as its key, a colon and its value. -/
theorem readsBack_member (h : ReadsBack v) (key out : String) :
    ∃ cs ts, (printOn (out ++ printedString (some key) ++ ":") v).toList = out.toList ++ cs ∧
      Scans cs (.string (some key) :: .colon :: ts) ∧ Builds ts v := by
  obtain ⟨cs, ts, hcs, hscan, hbuild⟩ := h (out ++ printedString (some key) ++ ":")
  have hcolon : Punctuates ':' .colon := ⟨rfl, fun _ => rfl⟩
  refine ⟨(printedString (some key)).toList ++ ':' :: cs, ts, ?_,
    (scans_string key).append (hcolon.scansOn hscan), hbuild⟩
  rw [hcs, String.toList_append, String.toList_append, List.append_assoc, List.append_assoc]
  rfl

/-- Each further member is written with a comma before it. -/
theorem readsBack_members {members : List (String × Json)} (h : ∀ m ∈ members, ReadsBack m.2)
    (out : String) :
    ∃ cs ts,
      (printMembers out "," (members.map fun (key, v) => (some key, v))).toList = out.toList ++ cs ∧
      ScansOn cs ts ∧ BuildsMembers ts (members.map fun (key, v) => (some key, v)) := by
  induction members generalizing out with
  | nil => exact ⟨[], [], (List.append_nil _).symm, .nil, .nil⟩
  | cons m members ih =>
    obtain ⟨cs, ts, hcs, hscan, hbuild⟩ := readsBack_member (h m List.mem_cons_self) m.1 (out ++ ",")
    obtain ⟨ds, us, hds, hscans, hbuilds⟩ := ih (fun n hn => h n (List.mem_cons_of_mem _ hn))
      (printOn (out ++ "," ++ printedString (some m.1) ++ ":") m.2)
    refine ⟨',' :: (cs ++ ds), .comma :: (.string (some m.1) :: .colon :: ts ++ us), ?_,
      punctuates_comma.scansOn (hscan.append hscans), BuildsMembers.cons hbuild hbuilds⟩
    rw [List.map_cons, printMembers, hds, hcs, String.toList_append, List.append_assoc, List.append_assoc]
    rfl

theorem readsBack_array {items : List Json} (h : ∀ v ∈ items, ReadsBack v) :
    ReadsBack (.array items) := by
  intro out
  have hbegin : Punctuates '[' .beginArray := ⟨rfl, fun _ => rfl⟩
  have hend : Punctuates ']' .endArray := ⟨rfl, fun _ => rfl⟩
  have hclose : ScansOn [']'] [.endArray] := hend.scansOn ScansOn.nil.scans
  cases items with
  | nil =>
    refine ⟨['[', ']'], _, ?_, (hbegin.scansOn hclose.scans).scans, builds_array_nil⟩
    rw [printOn, printItems, String.toList_append, String.toList_append, List.append_assoc]
    rfl
  | cons v items =>
    obtain ⟨cs, ts, hcs, hscan, hbuild⟩ := h v List.mem_cons_self (out ++ "[" ++ "")
    obtain ⟨ds, us, hds, hscans, hbuilds⟩ :=
      readsBack_items (fun w hw => h w (List.mem_cons_of_mem _ hw)) (printOn (out ++ "[" ++ "") v)
    refine ⟨'[' :: (cs ++ (ds ++ [']'])), _, ?_,
      (hbegin.scansOn (hscan.append (hscans.append hclose))).scans, hbuild.array hbuilds⟩
    rw [printOn, printItems, String.toList_append, hds, hcs, String.append_empty, String.toList_append]
    simp only [List.append_assoc]
    rfl

theorem readsBack_object {members : List (String × Json)} (h : ∀ m ∈ members, ReadsBack m.2) :
    ReadsBack (ofMembers members) := by
  intro out
  have hbegin : Punctuates '\x7b' .beginObject := ⟨rfl, fun _ => rfl⟩
  have hend : Punctuates '\x7d' .endObject := ⟨rfl, fun _ => rfl⟩
  have hclose : ScansOn ['\x7d'] [.endObject] := hend.scansOn ScansOn.nil.scans
  cases members with
  | nil =>
    refine ⟨['\x7b', '\x7d'], _, ?_, (hbegin.scansOn hclose.scans).scans, builds_object_nil⟩
    rw [ofMembers, List.map_nil, printOn, printMembers, String.toList_append, String.toList_append,
      List.append_assoc]
    rfl
  | cons m members =>
    obtain ⟨cs, ts, hcs, hscan, hbuild⟩ :=
      readsBack_member (h m List.mem_cons_self) m.1 (out ++ "\x7b" ++ "")
    obtain ⟨ds, us, hds, hscans, hbuilds⟩ :=
      readsBack_members (fun n hn => h n (List.mem_cons_of_mem _ hn))
        (printOn (out ++ "\x7b" ++ "" ++ printedString (some m.1) ++ ":") m.2)
    refine ⟨'\x7b' :: (cs ++ (ds ++ ['\x7d'])), _, ?_,
      (hbegin.scansOn (hscan.append (hscans.append hclose))).scans, hbuild.object hbuilds⟩
    rw [ofMembers, List.map_cons, printOn, printMembers, String.toList_append, hds, hcs,
      String.append_empty, String.toList_append]
    simp only [List.append_assoc]
    rfl

theorem Printable.readsBack (h : Printable v) : ReadsBack v := by
  induction h with
  | null =>
    have hword : IsWord "null".toList .null := ⟨by decide, rfl, rfl⟩
    exact readsBack_word (fun _ => rfl) hword
  | bool b =>
    have hword : IsWord (if b then "true" else "false").toList (.bool b) := by
      cases b <;> exact ⟨by decide, rfl, rfl⟩
    exact readsBack_word (fun _ => rfl) hword
  | integer n => exact readsBack_word (fun _ => rfl) (isWord_toString n)
  | string s =>
    exact fun out =>
      ⟨_, _, by rw [ofString, printOn, String.toList_append], scans_string s, builds_string s⟩
  | array _ ih => exact readsBack_array ih
  | object _ ih => exact readsBack_object ih

/-- The document that is printed for a value is read as the value. -/
theorem Printable.parse?_print (h : Printable v) : parse? v.print = some v := by
  obtain ⟨cs, ts, hcs, hscan, hbuild⟩ := h.readsBack ""
  have hprint : v.print.toList = cs := hcs
  obtain ⟨s, hs, hend⟩ := hscan []
  have htokens : tokens? cs = some ts := by
    rw [tokens?, show ({} : Scanner) = ⟨.between, []⟩ from rfl, hs, Option.bind_some, hend,
      List.append_nil]
    exact congrArg some (List.reverse_reverse ts)
  rw [parse?, hprint, htokens, Option.bind_some, ofTokens?,
    show ({} : Builder) = ⟨[], .value⟩ from rfl, hbuild _ _ (.inl rfl)]

end TokenPatterns.Json
