import Mathlib.Data.List.Nodup
import TokenPatterns.Proofs.Json.Printing
import TokenPatterns.Stored.Record

/-! Records that are read back.

A value is read back if decoding gives it again from its stored form. Texts and codes always are, and
numbers if they fit into a word. Lists, arrays and absent values are read back if what they hold is; and a
record is read back field by field, as each of its names occurs once in its object (`of?_ofMembers`). A
field that has a default may be left out where it holds that (`Member.defaulted`). -/
namespace TokenPatterns.Stored

variable {α : Type} [Stored α]

/-- Whether a value is read back from its stored form, and the stored form from what is printed for it. -/
structure Rereads (a : α) : Prop where
  decoded : decode? (encode a) = some a
  printable : (encode a).Printable

/-! ### Values -/

theorem rereads_string (s : String) : Rereads s := ⟨rfl, .string s⟩

theorem rereads_nat {n : Nat} (h : n < wordLimit) : Rereads n := ⟨if_pos h, .integer n⟩

theorem rereads_code (code : Int8) : Rereads code := by
  have hlt : code.toInt < 2 ^ 7 := code.toInt_lt
  have hle : -2 ^ 7 ≤ code.toInt := code.le_toInt
  refine ⟨?_, .integer code.toInt⟩
  show (if -128 ≤ code.toInt ∧ code.toInt ≤ 127 then some (Int8.ofInt code.toInt) else none) = some code
  rw [if_pos (by omega), Int8.ofInt_toInt]

/-- Items are read as the values that they stand for, one by one. -/
theorem mapM_decode?_eq_some {as : List α} {items : List Json}
    (h : List.Forall₂ (fun a item => decode? item = some a) as items) :
    items.mapM decode? = some as := by
  induction h with
  | nil => rfl
  | cons hitem _ ih =>
    rw [List.mapM_cons, hitem, ih]
    rfl

theorem rereads_list {as : List α} (h : ∀ a ∈ as, Rereads a) : Rereads as := by
  refine ⟨mapM_decode?_eq_some ?_, .array (List.forall_mem_map.mpr fun a ha => (h a ha).printable)⟩
  rw [List.forall₂_map_right_iff, List.forall₂_same]
  exact fun a ha => (h a ha).decoded

theorem rereads_array {as : Array α} (h : ∀ a ∈ as, Rereads a) : Rereads as := by
  have hlist : Rereads as.toList := rereads_list fun a ha => h a (Array.mem_toList_iff.mp ha)
  refine ⟨?_, hlist.printable⟩
  show (decode? (encode as.toList) : Option (List α)).map List.toArray = some as
  rw [hlist.decoded]
  rfl

/-- A value that may be absent is told from an absent one if it is not stored as null. -/
theorem rereads_option {o : Option α} (hnull : ∀ a ∈ o, encode a ≠ .null) (h : ∀ a ∈ o, Rereads a) :
    Rereads o := by
  cases o with
  | none => exact ⟨rfl, .null⟩
  | some a =>
    have hsome : ∀ v, v ≠ Json.null → (decode? v : Option (Option α)) = (decode? v).map some := by
      intro v hv
      cases v with
      | null => exact absurd rfl hv
      | _ => rfl
    refine ⟨?_, (h a rfl).printable⟩
    show (decode? (encode a) : Option (Option α)) = _
    rw [hsome _ (hnull a rfl), (h a rfl).decoded]
    rfl

theorem rereads_optional_string (o : Option String) : Rereads o :=
  rereads_option (fun _ _ => Json.noConfusion) fun s _ => rereads_string s

/-! ### Fields -/

theorem textKeys?_map (members : List (String × Json)) :
    textKeys? (members.map fun (key, v) => (some key, v)) = some members := by
  rw [textKeys?, List.mapM_map]
  exact (List.mapM_pure (f := id)).trans (by rw [List.map_id]; rfl)

namespace Fields

/-- The stored fields of an object in which no name occurs twice. -/
theorem of?_ofMembers {names : List String} {members : List (String × Json)}
    (h : (members.map (·.1)).Nodup) : of? names (Json.ofMembers members) = some (named members) := by
  have hcount : ∀ name, (members.filter (·.1 == name)).length ≤ 1 := fun name => by
    have hle := List.nodup_iff_count_le_one.mp h name
    rw [List.count, List.countP_map] at hle
    rwa [← List.countP_eq_length_filter]
  rw [Json.ofMembers, of?, textKeys?_map]
  exact if_pos (List.all_eq_true.mpr fun name _ => decide_eq_true (hcount name))

variable {members : List (String × Json)} {name : String} {v : Json} {a default : α} (place : Nat)

theorem required_of_lookup (hv : members.lookup name = some v) (ha : decode? v = some a) :
    (named members).required place name = some a := by
  rw [required, value?, hv]
  exact ha

theorem optional_of_lookup {o : Option α} (hv : members.lookup name = some v) (ho : decode? v = some o) :
    (named members).optional place name = some o := by
  have hvalue : (named members).value? place name = some v := hv
  simp only [optional, hvalue, ho]

end Fields

/-- How a field that has a default may be stored in an object: as a member, or not at all where it holds
the default. -/
inductive Member (name : String) (v : Json) (holdsDefault : Prop) : List (String × Json) → Prop
  | written : Member name v holdsDefault [(name, v)]
  | leftOut : holdsDefault → Member name v holdsDefault []

namespace Member

variable {name : String} {v : Json} {holdsDefault : Prop} {field : List (String × Json)}
  (h : Member name v holdsDefault field)
include h

theorem names : (field.map (·.1)).Sublist [name] := by
  cases h with
  | written => exact .refl _
  | leftOut _ => exact List.nil_sublist _

theorem lookup_of_ne {other : String} (hne : other ≠ name) : field.lookup other = none := by
  cases h with
  | written => rw [List.lookup_cons, beq_false_of_ne hne]; rfl
  | leftOut _ => rfl

theorem printable (hv : v.Printable) : ∀ m ∈ field, m.2.Printable := by
  cases h with
  | written => exact fun m hm => List.mem_singleton.mp hm ▸ hv
  | leftOut _ => exact fun m hm => absurd hm List.not_mem_nil

/-- A field that has a default is read back, whether it is written or left out. -/
theorem defaulted {members : List (String × Json)} {a default : α} (hv : decode? v = some a)
    (hdefault : holdsDefault → a = default) (hmembers : members.lookup name = field.lookup name)
    (place : Nat) : (Fields.named members).defaulted place name default = some a := by
  rw [Fields.defaulted, Fields.value?, hmembers]
  cases h with
  | written =>
    rw [List.lookup_cons_self]
    exact hv
  | leftOut hholds =>
    rw [hdefault hholds]
    rfl

end Member
end TokenPatterns.Stored
