import Mathlib.Data.List.Nodup

/-!
# JSON documents

A JSON document as the program holds it after parsing: an object keeps the order in which its
members were inserted, and each of its keys once. A number is one of three forms, and a binary
floating-point number is its bit pattern.
-/

namespace OnoSendai

open List

/-! ### Documents -/

/-- A number, as the parser keeps it. -/
inductive Number
  | posInt (number : UInt64)
  | negInt (number : Int64)
  | float (bits : UInt64)

/-- A JSON document. -/
inductive Json
  | null
  | bool (flag : Bool)
  | number (number : Number)
  | string (text : String)
  | array (items : List Json)
  | object (members : List (String × Json))

/-- The members of an object, in insertion order. -/
abbrev Members : Type :=
  List (String × Json)

namespace Number

/-- The number as a 64-bit unsigned integer. -/
def asU64 : Number → Option UInt64
  | posInt number => some number
  | _ => none

/-- The number as an integer, where it is one. -/
def asInt : Number → Option Int
  | posInt number => some number.toNat
  | negInt number => some number.toInt
  | float _ => none

end Number

namespace Json

/-- The text of a string. -/
def asStr : Json → Option String
  | string text => some text
  | _ => none

/-- The value of a boolean. -/
def asBool : Json → Option Bool
  | bool flag => some flag
  | _ => none

/-- The number of an unsigned integer. -/
def asU64 : Json → Option UInt64
  | number value => value.asU64
  | _ => none

/-- The members of an object. -/
def asObject : Json → Option Members
  | object members => some members
  | _ => none

/-- The value of a member, null where there is none. -/
def member (members : Members) (key : String) : Json :=
  (members.lookup key).getD .null

/-- The text of a member that is a string. -/
def text (members : Members) (key : String) : Option String :=
  (member members key).asStr

/-- The members of a member that is an object, none where it is not. -/
def inner (members : Members) (key : String) : Members :=
  (member members key).asObject.getD []

/-- Stores a value under a key; an existing key keeps its position. -/
def insertMember : Members → String → Json → Members
  | [], key, value => [(key, value)]
  | (entry, old) :: rest, key, value =>
    if entry = key then (entry, value) :: rest else (entry, old) :: insertMember rest key value

/-- Every object of the document has each key once. -/
inductive Unique : Json → Prop
  | null : Unique .null
  | bool (flag : Bool) : Unique (.bool flag)
  | number (number : Number) : Unique (.number number)
  | string (text : String) : Unique (.string text)
  | array {items : List Json} (h : ∀ item ∈ items, Unique item) : Unique (.array items)
  | object {members : Members} (hkeys : (members.map Prod.fst).Nodup)
      (h : ∀ entry ∈ members, Unique entry.2) : Unique (.object members)

/-! ### Members -/

section Members

variable {members : Members} {key : String} {value : Json}

theorem mem_of_lookup {β : Type} {entries : List (String × β)} {key : String} {value : β}
    (h : entries.lookup key = some value) : (key, value) ∈ entries := by
  obtain ⟨before, after, rfl, -⟩ := lookup_eq_some_iff.mp h
  simp

theorem mem_of_member (h : member members key ≠ .null) : (key, member members key) ∈ members := by
  unfold member at h ⊢
  cases hlookup : members.lookup key with
  | none => simp [hlookup] at h
  | some value => exact mem_of_lookup hlookup

theorem mem_of_member_object {found : Members} (h : member members key = .object found) :
    (key, Json.object found) ∈ members := by
  rw [← h]
  exact mem_of_member (by rw [h]; simp)

@[simp]
theorem inner_of_object {found : Members} (h : member members key = .object found) :
    inner members key = found := by
  rw [inner, h]
  rfl

/-- What is stored into an object, and what was there under other keys. -/
theorem mem_insertMember (hkeys : (members.map Prod.fst).Nodup) {entry : String × Json} :
    entry ∈ insertMember members key value ↔
      entry = (key, value) ∨ (entry ∈ members ∧ entry.1 ≠ key) := by
  induction members with
  | nil => simp [insertMember]
  | cons first rest ih =>
    obtain ⟨other, old⟩ := first
    rw [map_cons, nodup_cons] at hkeys
    unfold insertMember
    split_ifs with hkey
    · subst hkey
      have hrest : ∀ found ∈ rest, found.1 ≠ other := by
        rintro found hfound rfl
        exact hkeys.1 (mem_map.mpr ⟨_, hfound, rfl⟩)
      rw [mem_cons, mem_cons]
      constructor
      · rintro (rfl | hfound)
        · exact .inl rfl
        · exact .inr ⟨.inr hfound, hrest _ hfound⟩
      · rintro (rfl | ⟨rfl | hfound, hne⟩)
        · exact .inl rfl
        · exact absurd rfl hne
        · exact .inr hfound
    · rw [mem_cons, mem_cons, ih hkeys.2]
      constructor
      · rintro (rfl | rfl | ⟨hfound, hne⟩)
        · exact .inr ⟨.inl rfl, hkey⟩
        · exact .inl rfl
        · exact .inr ⟨.inr hfound, hne⟩
      · rintro (rfl | ⟨rfl | hfound, hne⟩)
        · exact .inr (.inl rfl)
        · exact .inl rfl
        · exact .inr (.inr ⟨hfound, hne⟩)

/-- The keys of an object into which something is stored. -/
theorem nodup_insertMember (hkeys : (members.map Prod.fst).Nodup) :
    ((insertMember members key value).map Prod.fst).Nodup := by
  induction members with
  | nil => simp [insertMember]
  | cons first rest ih =>
    obtain ⟨other, old⟩ := first
    rw [map_cons, nodup_cons] at hkeys
    unfold insertMember
    split_ifs with hkey
    · exact nodup_cons.mpr hkeys
    · refine nodup_cons.mpr ⟨fun hmem => ?_, ih hkeys.2⟩
      obtain ⟨entry, hentry, hfst⟩ := mem_map.mp hmem
      rcases (mem_insertMember hkeys.2).mp hentry with rfl | ⟨hfound, -⟩
      · exact hkey hfst.symm
      · exact hkeys.1 (hfst ▸ mem_map_of_mem hfound)

theorem length_insertMember (h : key ∈ members.map Prod.fst) :
    (insertMember members key value).length = members.length := by
  induction members with
  | nil => cases h
  | cons first rest ih =>
    obtain ⟨other, old⟩ := first
    unfold insertMember
    split_ifs with hkey
    · rfl
    · have hrest : key ∈ rest.map Prod.fst :=
        (mem_cons.mp h).resolve_left (Ne.symm hkey)
      rw [length_cons, length_cons, ih hrest]

/-- What is stored is found, and what is found under another key stays. -/
theorem member_insertMember (members : Members) (key other : String) (value : Json) :
    member (insertMember members key value) other =
      if other = key then value else member members other := by
  unfold member
  induction members with
  | nil =>
    by_cases hother : other = key
    · simp [insertMember, hother]
    · rw [insertMember, lookup_cons, beq_false_of_ne hother, if_neg hother]
  | cons first rest ih =>
    obtain ⟨entry, old⟩ := first
    unfold insertMember
    split_ifs with hkey hother hother
    · subst hkey hother
      simp
    · subst hkey
      simp [lookup_cons, beq_false_of_ne hother]
    · subst hother
      rw [lookup_cons, beq_false_of_ne (Ne.symm hkey)]
      simpa using ih
    · rw [lookup_cons, lookup_cons]
      by_cases hentry : other = entry
      · simp [hentry]
      · simpa [beq_false_of_ne hentry, hother] using ih

theorem sizeOf_member_le (members : Members) (key : String) :
    sizeOf (member members key) ≤ sizeOf members := by
  by_cases h : member members key = .null
  · rw [h]
    cases members with
    | nil => simp
    | cons entry rest =>
      simp
      omega
  · have hlt := sizeOf_lt_of_mem (mem_of_member h)
    simp only [Prod.mk.sizeOf_spec] at hlt
    omega

/-- The members of a member are smaller than the object. -/
theorem sizeOf_inner_le (members : Members) (key : String) :
    sizeOf (inner members key) ≤ sizeOf members := by
  unfold inner
  cases h : (member members key).asObject with
  | none =>
    cases members with
    | nil => simp
    | cons entry rest =>
      simp
      omega
  | some found =>
    have hobject : member members key = .object found := by
      cases hmember : member members key with
      | object members =>
        rw [hmember] at h
        exact congrArg Json.object (Option.some.inj h)
      | null | bool _ | number _ | string _ | array _ => simp [hmember, asObject] at h
    have hle := sizeOf_member_le members key
    rw [hobject] at hle
    simp at hle ⊢
    omega

end Members

end Json

end OnoSendai
