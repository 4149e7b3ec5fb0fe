import OnoSendai.Temporal.Identity

/-!
# The identity of an object

Two observations are of one object when their records have one schema and the fields that identify
them have the same values (`ono_provider_api::ObjectId`). The values are compared by a text that is
rendered once: each behind a separator, a scalar by its canonical text, a list in brackets, and maps
and records in braces, the keys of a map in order. Nothing inside is escaped, and the text of a
scalar does not tell its kind.
-/

namespace OnoSendai

open Labelled Temporal
open List hiding append_assoc append_left_inj intercalate_cons_cons map_map

/-! ### The text of an identity -/

section Text

variable (texts : TokenPrinters)

/-- The texts of a map's entries, in the order of their keys. -/
def sortedTexts (entries : List (String × String)) : List String :=
  (entries.insertionSort fun one two => one.1 ≤ two.1).map fun entry => entry.1 ++ "=" ++ entry.2

/-- The texts of a record's declared fields under their names. -/
def declaredTexts (schema : Schema) (fields : List String) : List String :=
  schema.fields.map fun name =>
    name ++ "=" ++ ((schema.positionOf name).bind fun index => fields[index]?).getD "null"

mutual

/-- The text of a value in an identity. -/
def identityText : Value → String
  | .list items => "[" ++ ",".intercalate (identityTexts items) ++ "]"
  | .map entries => "\x7b" ++ ",".intercalate (sortedTexts (identityEntries entries)) ++ "\x7d"
  | .record schema fields _ _ =>
    schemaIdText schema.id ++ "\x7b" ++
      ",".intercalate (declaredTexts schema (identityTexts fields)) ++ "\x7d"
  | value => (canonicalText texts value).getD "?"
termination_by structural value => value

/-- The texts of the items of a list. -/
def identityTexts : List Value → List String
  | [] => []
  | item :: items => identityText item :: identityTexts items
termination_by structural items => items

/-- The entries of a map with the texts of their values. -/
def identityEntries : List (String × Value) → List (String × String)
  | [] => []
  | (key, value) :: entries => (key, identityText value) :: identityEntries entries
termination_by structural entries => entries

end

/-- What stands before each value of an identity. -/
def identityMark : Char :=
  '\x1f'

/-- The values of an identity as one text. -/
def identityKey (values : List Value) : String :=
  String.join (values.map fun value => String.singleton identityMark ++ identityText texts value)

/-! ### The identity of a record -/

/-- What makes two observations the same thing. -/
structure ObjectId where
  schema : SchemaId
  values : List Value
  key : String

/-- The values of the fields that identify a record. -/
def identityValues (printers : Printers) (record : RecordValue) : List Value :=
  (identityFor printers record).map fun name => (record.get name).getD .null

namespace ObjectId

/-- Whether two identities are the same. -/
def eq (one two : ObjectId) : Bool :=
  one.schema = two.schema && one.key = two.key

/-- The identity of a schema and values. -/
def new (schema : SchemaId) (values : List Value) : ObjectId where
  schema := schema
  values := values
  key := identityKey texts values

/-- The identity of a record, where its schema declares one and the record states it. -/
def of (printers : Printers) (record : RecordValue) : Option ObjectId :=
  if (printers.identity record.schema).identity.isEmpty then none
  else if (identityValues printers record).all Value.isNull then none
  else some (new texts record.schema.id (identityValues printers record))

end ObjectId

/-! ### An identity taken apart -/

/-- The characters of a text. -/
def charsOf (text : String) : List (Option Char) :=
  text.toList.map some

/-- An item that stands under a name. -/
def underName (name : String) (item : Item (Option Char)) : Item (Option Char) :=
  (charsOf (name ++ "=") ++ item.1, item.2)

/-- What stands for a value that is not there. -/
def absentItem : Item (Option Char) :=
  ([], .text (charsOf "null"))

/-- The items of a map in the order of their keys. -/
def sortedItems (entries : List (String × Item (Option Char))) : List (Item (Option Char)) :=
  (entries.insertionSort fun one two => one.1 ≤ two.1).map fun entry => underName entry.1 entry.2

/-- The items of a record's declared fields under their names. -/
def declaredItems (schema : Schema) (fields : List (Item (Option Char))) :
    List (Item (Option Char)) :=
  schema.fields.map fun name =>
    underName name (((schema.positionOf name).bind fun index => fields[index]?).getD absentItem)

mutual

/-- A value taken apart into the texts it is rendered with. -/
def identityWritten : Value → List (Option Char) × Body (Option Char)
  | .list items =>
    (charsOf "[", .group (separatedBy (charsOf ",") (identityWrittenItems items)) (charsOf "]"))
  | .map entries =>
    (charsOf "\x7b",
      .group (separatedBy (charsOf ",") (sortedItems (identityWrittenEntries entries)))
        (charsOf "\x7d"))
  | .record schema fields _ _ =>
    (charsOf (schemaIdText schema.id ++ "\x7b"),
      .group (separatedBy (charsOf ",") (declaredItems schema (identityWrittenItems fields)))
        (charsOf "\x7d"))
  | value => ([], .text (charsOf ((canonicalText texts value).getD "?")))
termination_by structural value => value

/-- The items of a list taken apart. -/
def identityWrittenItems : List Value → List (List (Option Char) × Body (Option Char))
  | [] => []
  | item :: items => identityWritten item :: identityWrittenItems items
termination_by structural items => items

/-- The entries of a map with their values taken apart. -/
def identityWrittenEntries :
    List (String × Value) → List (String × (List (Option Char) × Body (Option Char)))
  | [] => []
  | (key, value) :: entries => (key, identityWritten value) :: identityWrittenEntries entries
termination_by structural entries => entries

end

/-- Values that are rendered part by part alike. -/
def IdentityAlike (a b : Value) : Prop :=
  identityWritten texts a = identityWritten texts b

/-- The values of an identity taken apart, each behind the separator. -/
def identityItems (values : List Value) : List (Item (Option Char)) :=
  values.map fun value =>
    (some identityMark :: (identityWritten texts value).1, (identityWritten texts value).2)

/-- Whether the values of two identities cannot be mistaken for each other: at the first place where
they differ, neither identity goes on as the other does, where no character stands after the end. -/
def IdentitiesApart (values others : List Value) : Prop :=
  ItemsApart (identityItems texts values) [none] (identityItems texts others) [none]

end Text

/-! ### The text is what the parts are written as -/

section Written

variable {texts : TokenPrinters}

theorem charsOf_append (one two : String) : charsOf (one ++ two) = charsOf one ++ charsOf two := by
  simp [charsOf]

theorem charsOf_inj {one two : String} : charsOf one = charsOf two ↔ one = two := by
  rw [charsOf, charsOf, (map_injective_iff.2 (Option.some_injective _)).eq_iff,
    String.toList_inj]

theorem charsOf_intercalate (items : List String) :
    charsOf (",".intercalate items) = (charsOf ",").intercalate (items.map charsOf) := by
  have hlists (first : List Char) (lists : List (List Char)) :
      (",".toList.intercalate (first :: lists)).map some =
        (charsOf ",").intercalate ((first :: lists).map (·.map some)) := by
    induction lists generalizing first with
    | nil => simp
    | cons next lists ih =>
      rw [List.intercalate_cons_cons, map_append, map_append, ih next, map_cons,
        map_cons, map_cons, List.intercalate_cons_cons]
      rfl
  rw [charsOf, String.toList_intercalate]
  cases items with
  | nil => rfl
  | cons item items =>
    rw [map_cons, hlists, ← map_cons, List.map_map]
    rfl

theorem identityWrittenItems_eq_map (items : List Value) :
    identityWrittenItems texts items = items.map (identityWritten texts) := by
  induction items with
  | nil => rfl
  | cons item items ih => rw [identityWrittenItems, ih, map_cons]

theorem identityTexts_eq_map (items : List Value) :
    identityTexts texts items = items.map (identityText texts) := by
  induction items with
  | nil => rfl
  | cons item items ih => rw [identityTexts, ih, map_cons]

theorem flatItem_underName (name : String) (item : Item (Option Char)) :
    flatItem (underName name item) = charsOf (name ++ "=") ++ flatItem item := by
  rw [flatItem, underName, List.append_assoc, flatItem]

theorem identityWrittenEntries_eq_map (entries : List (String × Value)) :
    identityWrittenEntries texts entries =
      entries.map fun entry => (entry.1, identityWritten texts entry.2) := by
  induction entries with
  | nil => rfl
  | cons entry entries ih => rw [identityWrittenEntries, ih, map_cons]

theorem identityEntries_eq_map (entries : List (String × Value)) :
    identityEntries texts entries =
      entries.map fun entry => (entry.1, identityText texts entry.2) := by
  induction entries with
  | nil => rfl
  | cons entry entries ih => rw [identityEntries, ih, map_cons]

theorem insertionSort_map_entries {β : Type*} (f : Value → β) (entries : List (String × Value)) :
    (entries.map fun entry => (entry.1, f entry.2)).insertionSort
        (fun one two => one.1 ≤ two.1) =
      (entries.insertionSort fun one two => one.1 ≤ two.1).map fun entry =>
        (entry.1, f entry.2) :=
  (map_insertionSort _ (fun one two : String × β => one.1 ≤ two.1)
    (fun entry : String × Value => (entry.1, f entry.2)) entries fun _ _ _ _ => Iff.rfl).symm

theorem map_flatItem_sortedItems {entries : List (String × Value)}
    (h : ∀ entry ∈ entries, flatItem (identityWritten texts entry.2) =
      charsOf (identityText texts entry.2)) :
    (sortedItems (identityWrittenEntries texts entries)).map flatItem =
      (sortedTexts (identityEntries texts entries)).map charsOf := by
  rw [sortedItems, sortedTexts, identityWrittenEntries_eq_map, identityEntries_eq_map,
    insertionSort_map_entries, insertionSort_map_entries]
  simp only [List.map_map]
  refine List.map_congr_left fun entry hentry => ?_
  rw [List.mem_insertionSort] at hentry
  simp only [Function.comp_apply, flatItem_underName, h entry hentry, charsOf_append]

theorem map_flatItem_declaredItems {fields : List Value} (schema : Schema)
    (h : ∀ field ∈ fields, flatItem (identityWritten texts field) =
      charsOf (identityText texts field)) :
    (declaredItems schema (identityWrittenItems texts fields)).map flatItem =
      (declaredTexts schema (identityTexts texts fields)).map charsOf := by
  rw [declaredItems, declaredTexts, identityWrittenItems_eq_map, identityTexts_eq_map]
  simp only [List.map_map]
  refine List.map_congr_left fun name _ => ?_
  simp only [Function.comp_apply, flatItem_underName, charsOf_append, List.getElem?_map]
  congr 1
  cases hposition : schema.positionOf name with
  | none => rfl
  | some index =>
    cases hfield : fields[index]? with
    | none => simp [hfield, flatItem, absentItem, Body.flat]
    | some field => simp [hfield, h field (mem_of_getElem? hfield)]

/-- A value's text is what is written of it taken apart. -/
theorem flatItem_identityWritten (value : Value) :
    flatItem (identityWritten texts value) = charsOf (identityText texts value) := by
  induction value using Value.induction with
  | leaf value hvalue =>
    cases value <;> simp_all [Value.IsLeaf, flatItem, identityWritten, identityText, Body.flat]
  | list items ih =>
    have hitems : (identityWrittenItems texts items).map flatItem =
        (identityTexts texts items).map charsOf := by
      rw [identityWrittenItems_eq_map, identityTexts_eq_map, List.map_map, List.map_map]
      exact List.map_congr_left ih
    simp only [flatItem, identityWritten, identityText, Body.flat, flatItems_separatedBy, hitems,
      charsOf_append, charsOf_intercalate, List.append_assoc]
  | map entries ih =>
    simp only [flatItem, identityWritten, identityText, Body.flat, flatItems_separatedBy,
      map_flatItem_sortedItems ih, charsOf_append, charsOf_intercalate, List.append_assoc]
  | record schema fields extra provenance ih _ =>
    simp only [flatItem, identityWritten, identityText, Body.flat, flatItems_separatedBy,
      map_flatItem_declaredItems schema ih, charsOf_append, charsOf_intercalate,
      List.append_assoc]

theorem flatItems_identityItems (values : List Value) :
    flatItems (identityItems texts values) = charsOf (identityKey texts values) := by
  induction values with
  | nil => rfl
  | cons value values ih =>
    rw [identityItems] at ih ⊢
    rw [List.map_cons, flatItems, ih, ← List.append_assoc, List.cons_append]
    have hflat := @flatItem_identityWritten texts value
    rw [flatItem] at hflat
    rw [hflat, identityKey, identityKey, map_cons, String.join_cons, charsOf_append,
      charsOf_append]
    rfl

variable {values others : List Value}

theorem identityItems_inj :
    identityItems texts values = identityItems texts others ↔
      Forall₂ (IdentityAlike texts) values others := by
  induction values generalizing others with
  | nil =>
    cases others with
    | nil => simp
    | cons other others => simp [identityItems]
  | cons value values ih =>
    cases others with
    | nil => simp [identityItems]
    | cons other others =>
      have htail := @ih others
      rw [identityItems, identityItems] at htail ⊢
      rw [forall₂_cons, map_cons, map_cons, cons.injEq, htail, IdentityAlike]
      simp [Prod.ext_iff]

/-- **What the text of an identity tells.** Values that cannot be mistaken for each other have one
text when they are alike. -/
theorem identityKey_eq_iff (h : IdentitiesApart texts values others) :
    identityKey texts values = identityKey texts others ↔
      Forall₂ (IdentityAlike texts) values others := by
  rw [← identityItems_inj]
  constructor
  · intro heq
    have hwritten : flatItems (identityItems texts values) ++ ([none] ++ []) =
        flatItems (identityItems texts others) ++ ([none] ++ []) := by
      rw [flatItems_identityItems, flatItems_identityItems, heq]
    exact (items_eq_of_flat_append h hwritten).1
  · intro heq
    rw [← charsOf_inj, ← flatItems_identityItems, ← flatItems_identityItems, heq]

/-- The scalars whose text tells the value: those that are compared as they are held, and that no
library prints. -/
def WrittenAsHeld : Value → Prop
  | .null | .bool _ | .int _ | .string _ | .bytes _ | .duration _ | .byteSize _ | .regex _
  | .port _ => True
  | _ => False

/-- Where the text of a scalar tells the value, those of one kind have one text when they are
equal. -/
theorem identityAlike_iff_equalUnobserved {powi : ℕ → UInt64} {a b : Value} (h : WrittenAsHeld a)
    (hkind : a.typeName = b.typeName) : IdentityAlike texts a b ↔ EqualUnobserved powi a b := by
  have htext : ∀ one two : String,
      ((([], .text (charsOf one)) : Item (Option Char)) = ([], .text (charsOf two))) ↔
        one = two := by
    intro one two
    rw [Prod.mk.injEq, Body.text.injEq, charsOf_inj]
    exact and_iff_right rfl
  cases a <;> try exact h.elim
  all_goals cases b <;> try simp [Value.typeName] at hkind
  case null.null => exact iff_of_true rfl rfl
  all_goals refine (htext _ _).trans (Iff.trans ?_ beq_iff_eq.symm)
  case bool.bool x y => cases x <;> cases y <;> simp [canonicalText]
  case int.int x y => exact Int.repr_inj
  case string.string => exact Iff.rfl
  case bytes.bytes => exact hexText_inj
  case duration.duration => exact (String.append_left_inj _).trans Int.repr_inj
  case byteSize.byteSize => exact (String.append_left_inj _).trans Nat.repr_inj
  case regex.regex => exact Iff.rfl
  case port.port => exact Nat.repr_inj.trans UInt16.toNat_inj

end Written

/-! ### Two observations -/

section Observations

variable {texts : TokenPrinters} {printers : Printers} {a b : RecordValue} {one two : ObjectId}

theorem ObjectId.of_eq_some (h : ObjectId.of texts printers a = some one) :
    one = .new texts a.schema.id (identityValues printers a) := by
  rw [ObjectId.of] at h
  split_ifs at h
  exact (Option.some.inj h).symm

/-- **When the identity of an object is the one of its values.** Where the values that identify two
records of one schema cannot be mistaken for each other, the identities tell whether they are equal
exactly when being equal, whoever observed them, is being rendered part by part alike. -/
theorem objectId_faithful_iff (powi : ℕ → UInt64) (hschema : a.schema = b.schema)
    (hone : ObjectId.of texts printers a = some one)
    (htwo : ObjectId.of texts printers b = some two)
    (hapart : IdentitiesApart texts (identityValues printers a) (identityValues printers b)) :
    (one.eq two = true ↔
        Forall₂ (EqualUnobserved powi) (identityValues printers a)
          (identityValues printers b)) ↔
      (Forall₂ (EqualUnobserved powi) (identityValues printers a)
          (identityValues printers b) ↔
        Forall₂ (IdentityAlike texts) (identityValues printers a)
          (identityValues printers b)) := by
  have hkeys : one.eq two = true ↔
      Forall₂ (IdentityAlike texts) (identityValues printers a)
        (identityValues printers b) := by
    rw [ObjectId.of_eq_some hone, ObjectId.of_eq_some htwo, ObjectId.eq, ← identityKey_eq_iff hapart]
    simp [ObjectId.new, hschema]
  rw [hkeys]
  exact iff_comm

end Observations

/-! ### Disks -/

/-- What the libraries print, where records are identified by all their fields. -/
def namingPrinters : Printers where
  float _ := ""
  twoPlaces _ := ""
  timestamp _ := ""
  path _ := ""
  address _ := ""
  identity schema := ⟨schema.fields, []⟩

/-- A disk of a name. -/
def diskNamed (name : Value) : RecordValue where
  schema := ⟨⟨"ono.block-device", 1⟩, ["name"]⟩
  fields := [name]
  extra := []
  provenance := .fixed

theorem of_diskNamed (name : Value) (h : name.isNull = false) :
    ObjectId.of silentPrinters namingPrinters (diskNamed name) =
      some (.new silentPrinters ⟨"ono.block-device", 1⟩ [name]) := by
  have hvalues : identityValues namingPrinters (diskNamed name) = [name] := rfl
  rw [ObjectId.of, hvalues]
  simp [namingPrinters, h, diskNamed]

/-- A partition of a disk, by the disk, its labels and its place in a table. -/
def partitionAt (index : Int) : RecordValue where
  schema := ⟨⟨"ono.partition", 1⟩, ["name", "labels", "place"]⟩
  fields := [.string "sda", .list [.string "boot", .int 8],
    .record ⟨⟨"ono.place", 1⟩, ["table", "index"]⟩ [.string "gpt", .int index] [] .fixed]
  extra := []
  provenance := .fixed

theorem of_partitionAt (index : Int) :
    ObjectId.of silentPrinters namingPrinters (partitionAt index) =
      some (.new silentPrinters ⟨"ono.partition", 1⟩ (partitionAt index).fields) :=
  rfl

/-- The identities of two partitions tell that their places are not equal. -/
theorem objectId_faithful_partitions :
    ((ObjectId.new silentPrinters ⟨"ono.partition", 1⟩ (partitionAt 1).fields).eq
          (.new silentPrinters ⟨"ono.partition", 1⟩ (partitionAt 2).fields) = true ↔
        Forall₂ (EqualUnobserved fun _ => 0) (identityValues namingPrinters (partitionAt 1))
          (identityValues namingPrinters (partitionAt 2))) := by
  have hschema : (partitionAt 1).schema = (partitionAt 2).schema := rfl
  refine (objectId_faithful_iff (fun _ => 0) hschema (of_partitionAt 1) (of_partitionAt 2)
    (.inr ⟨rfl, .inl rfl, fun _ => .inr ⟨rfl, .inr ⟨rfl, .inl rfl, fun _ => .inr ⟨rfl, .inl rfl,
      fun _ => .inl rfl⟩⟩, fun _ => .inl ?_⟩⟩)).2 ?_
  · decide +kernel
  · refine iff_of_false ?_ ?_
    · rintro (_ | ⟨-, _ | ⟨-, _ | ⟨hequal, -⟩⟩⟩)
      revert hequal
      rw [EqualUnobserved]
      decide +kernel
    · rintro (_ | ⟨-, _ | ⟨-, _ | ⟨halike, -⟩⟩⟩)
      have hflat := congrArg flatItem halike
      rw [flatItem_identityWritten, flatItem_identityWritten, charsOf_inj] at hflat
      revert hflat
      decide +kernel

/-- A list of two names and the name that spells them have one identity, and one number written
twice has two. -/
theorem not_objectId_faithful :
    (¬∀ (texts : TokenPrinters) (printers : Printers) (powi : ℕ → UInt64) (a b : RecordValue)
      (one two : ObjectId), a.schema = b.schema → ObjectId.of texts printers a = some one →
        ObjectId.of texts printers b = some two → one.eq two = true →
          Forall₂ (EqualUnobserved powi) (identityValues printers a)
            (identityValues printers b)) ∧
      ¬∀ (texts : TokenPrinters) (printers : Printers) (powi : ℕ → UInt64) (a b : RecordValue)
        (one two : ObjectId), a.schema = b.schema → ObjectId.of texts printers a = some one →
          ObjectId.of texts printers b = some two →
            Forall₂ (EqualUnobserved powi) (identityValues printers a)
              (identityValues printers b) → one.eq two = true := by
  constructor
  · intro h
    have hequal := h silentPrinters namingPrinters (fun _ => 0)
      (diskNamed (.list [.string "a", .string "b"])) (diskNamed (.list [.string "a,b"])) _ _ rfl
      (of_diskNamed _ rfl) (of_diskNamed _ rfl) (by decide +kernel)
    rcases hequal with _ | ⟨hequal, -⟩
    revert hequal
    rw [EqualUnobserved]
    decide +kernel
  · intro h
    have hequal : EqualUnobserved (fun _ => 0) (.decimal 15 1) (.decimal 150 2) := by
      rw [EqualUnobserved]
      decide +kernel
    have hsame := h silentPrinters namingPrinters (fun _ => 0)
      (diskNamed (.decimal 15 1)) (diskNamed (.decimal 150 2)) _ _ rfl
      (of_diskNamed _ rfl) (of_diskNamed _ rfl) (.cons hequal .nil)
    revert hsame
    decide +kernel

end OnoSendai
