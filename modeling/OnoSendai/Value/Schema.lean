import OnoSendai.Value
import Mathlib.Data.List.Nodup
import Mathlib.Logic.Relation

/-!
# Object schemas and how they evolve

A schema is the contract of an object type: its fields with their types, and the fields that
identify an object. A record is checked against a schema position by position, and two versions of
a schema are compared name by name: a change of one is compatible when the readers of the other
keep working.
-/

namespace OnoSendai

open List hiding any_eq_false getElem?_eq_some_iff

/-- The display of a schema id. -/
def SchemaId.text (id : SchemaId) : String :=
  id.name ++ "/" ++ toString id.version

/-! ### The types of fields -/

/-- The declared type of a field or a stream. -/
inductive FieldType
  | any
  | bool
  | int
  | float
  | decimal
  | string
  | bytes
  | path
  | timestamp
  | duration
  | byteSize
  | percent
  | regex
  | uuid
  | ip
  | ipNetwork
  | port
  | enum (variants : List String)
  | list (inner : FieldType)
  | map
  | record (id : SchemaId)
  | ref (id : SchemaId)
  | error
deriving DecidableEq

namespace FieldType

/-- Whether a value is an inhabitant of the type. Null never is. -/
def accepts : FieldType → Value → Bool
  | any, value | ref _, value => !value.isNull
  | bool, .bool _ | int, .int _ | float, .float _ | decimal, .decimal _ _ | string, .string _
  | bytes, .bytes _ | path, .path _ | timestamp, .timestamp _ | duration, .duration _
  | byteSize, .byteSize _ | percent, .percent _ | regex, .regex _ | uuid, .uuid _ | ip, .ip _
  | ipNetwork, .ipNetwork _ _ | port, .port _ | map, .map _ | error, .error _ _ => true
  | enum variants, .string text => text ∈ variants
  | list inner, .list items => items.all inner.accepts
  | record id, .record schema _ _ _ => schema.id = id
  | _, _ => false

/-- Whether a field of this type can become `other` without losing information. -/
def widensTo : FieldType → FieldType → Bool
  | int, float | int, decimal => true
  | _, _ => false

/-- The name of the type. -/
def name : FieldType → String
  | any => "any"
  | bool => "bool"
  | int => "int"
  | float => "float"
  | decimal => "decimal"
  | string => "string"
  | bytes => "bytes"
  | path => "path"
  | timestamp => "timestamp"
  | duration => "duration"
  | byteSize => "bytesize"
  | percent => "percent"
  | regex => "regex"
  | uuid => "uuid"
  | ip => "ip"
  | ipNetwork => "ipnetwork"
  | port => "port"
  | enum variants => "enum<" ++ "|".intercalate variants ++ ">"
  | list inner => "list<" ++ inner.name ++ ">"
  | map => "map"
  | record id => "record<" ++ id.text ++ ">"
  | ref id => "ref<" ++ id.text ++ ">"
  | error => "error"

theorem widensTo_eq_false {first second : FieldType} (h : first.widensTo second = true)
    (third : FieldType) : second.widensTo third = false := by
  unfold widensTo at h
  split at h
  · rfl
  · rfl
  · cases h

end FieldType

/-! ### Contracts -/

/-- The unit a numeric field carries, where its type does not already say it. -/
inductive FieldUnit
  | percent
  | bytes
  | seconds
  | count
deriving DecidableEq

/-- One field of a schema. -/
structure FieldDef where
  name : String
  type : FieldType
  required : Bool
  nullable : Bool
  unit : Option FieldUnit

/-- The contract of an object type. Its fields have names of their own, and its identity and its
default view are made of them. -/
structure ObjectSchema where
  id : SchemaId
  name : String
  fields : List FieldDef
  identity : List String
  identityFallback : List String
  defaultView : List String
  distinct : (fields.map (·.name)).Nodup
  declared : ∀ name ∈ identity ++ identityFallback ++ defaultView, name ∈ fields.map (·.name)

variable {schema : ObjectSchema}

namespace ObjectSchema

/-- The declared names, as a record of the schema carries them. -/
def names (schema : ObjectSchema) : Schema where
  id := schema.id
  fields := schema.fields.map (·.name)

/-- The storage position of a field. -/
def positionOf (schema : ObjectSchema) (name : String) : Option Nat :=
  schema.names.positionOf name

/-- The field declared under a name. -/
def field (schema : ObjectSchema) (name : String) : Option FieldDef :=
  (schema.positionOf name).bind (schema.fields[·]?)

theorem positionOf_eq_some_iff {name : String} {index : Nat} :
    schema.positionOf name = some index ↔
      ∃ field, schema.fields[index]? = some field ∧ field.name = name := by
  have hnames : schema.names.fields = schema.fields.map (·.name) := rfl
  rw [positionOf, Schema.positionOf, idxOf?_eq_some_iff]
  constructor
  · rintro ⟨hlt, hname, -⟩
    simp only [hnames, length_map] at hlt
    simp only [hnames, getElem_map] at hname
    exact ⟨_, getElem?_eq_getElem hlt, hname⟩
  · rintro ⟨field, hfield, rfl⟩
    obtain ⟨hlt, rfl⟩ := List.getElem?_eq_some_iff.1 hfield
    refine ⟨by simpa [hnames] using hlt, by simp [hnames], fun other hother hsame => ?_⟩
    have hdistinct := List.pairwise_iff_getElem.1 schema.distinct other index
      (by simp; omega) (by simpa using hlt) hother
    exact hdistinct (by simpa [hnames] using hsame)

theorem positionOf_eq_none_iff {name : String} :
    schema.positionOf name = none ↔ name ∉ schema.fields.map (·.name) :=
  idxOf?_eq_none_iff

theorem field_eq_some_iff {name : String} {field : FieldDef} :
    schema.field name = some field ↔ field ∈ schema.fields ∧ field.name = name := by
  rw [ObjectSchema.field, Option.bind_eq_some_iff]
  constructor
  · rintro ⟨index, hindex, hfield⟩
    obtain ⟨other, hother, hname⟩ := positionOf_eq_some_iff.1 hindex
    rw [hother] at hfield
    obtain rfl := Option.some.inj hfield
    exact ⟨mem_of_getElem? hother, hname⟩
  · rintro ⟨hmem, hname⟩
    obtain ⟨index, hindex⟩ := mem_iff_getElem?.1 hmem
    exact ⟨index, positionOf_eq_some_iff.2 ⟨field, hindex, hname⟩, hindex⟩

/-! ### Checking a record -/

/-- A record that violates the contract. -/
def violation (message : String) : ErrorValue where
  code := .other "provider.schema_violation"
  message := message

/-- Why a value may not stand in a field. An error always may: a failed access stays visible. -/
def checkField (schema : ObjectSchema) (field : FieldDef) : Value → Option ErrorValue
  | .error _ _ => none
  | .null =>
    if field.required || !field.nullable then
      some (violation ("required field `" ++ field.name ++ "` of " ++ schema.id.text ++ " is null"))
    else none
  | value =>
    if field.type.accepts value then none
    else some (violation ("field `" ++ field.name ++ "` of " ++ schema.id.text ++ " must be " ++
      field.type.name ++ " but holds " ++ value.typeName))

/-- Why the fields of a record, from a position on, violate the contract. -/
def checkFields (schema : ObjectSchema) (record : RecordValue) :
    Nat → List FieldDef → Option ErrorValue
  | _, [] => none
  | index, field :: rest =>
    (schema.checkField field ((record.fields[index]?).getD .null)).or
      (checkFields schema record (index + 1) rest)

/-- Why the extensions of a record violate the contract: none may shadow a declared field. -/
def checkExtra (schema : ObjectSchema) (record : RecordValue) : Option ErrorValue :=
  record.extra.findSome? fun (key, _) =>
    if (schema.positionOf key).isSome then
      some (violation ("extension `" ++ key ++
        "` shadows the declared field of the same name on " ++ schema.id.text))
    else none

/-- Checks a record against the schema. -/
def validate (schema : ObjectSchema) (record : RecordValue) : Except ErrorValue Unit :=
  if record.schema.id ≠ schema.id then
    .error (violation ("record claims schema " ++ record.schema.id.text ++
      " but was checked against " ++ schema.id.text))
  else
    match (schema.checkFields record 0 schema.fields).or (schema.checkExtra record) with
    | some refusal => .error refusal
    | none => .ok ()

end ObjectSchema

/-- A value may stand in a field: it is an error, it is unknown where that is allowed, or it is of
the type of the field. -/
def FieldDef.Admits (field : FieldDef) (value : Value) : Prop :=
  (∃ error causes, value = .error error causes) ∨
    (value = .null ∧ field.required = false ∧ field.nullable = true) ∨
    (value ≠ .null ∧ field.type.accepts value = true)

namespace ObjectSchema

variable {schema : ObjectSchema} {record : RecordValue}

theorem checkField_eq_none_iff {field : FieldDef} {value : Value} :
    schema.checkField field value = none ↔ field.Admits value := by
  unfold checkField FieldDef.Admits
  split
  · simp
  · simp
  · next hother hnull =>
    have hnot : ¬ ∃ error causes, value = .error error causes :=
      fun ⟨error, causes, heq⟩ => hother error causes heq
    have hknown : value ≠ .null := hnull
    simp [hnot, hknown]

theorem checkFields_eq_none_iff {fields : List FieldDef} {start : Nat} :
    schema.checkFields record start fields = none ↔
      ∀ (index : Nat) (field : FieldDef), fields[index]? = some field →
        field.Admits ((record.fields[start + index]?).getD .null) := by
  induction fields generalizing start with
  | nil => simp [checkFields]
  | cons first rest ih =>
    rw [checkFields, Option.or_eq_none_iff, checkField_eq_none_iff, ih]
    constructor
    · rintro ⟨hfirst, hrest⟩ index field hfield
      cases index with
      | zero =>
        obtain rfl := Option.some.inj hfield
        exact hfirst
      | succ index =>
        have hlater := hrest index field hfield
        rwa [Nat.add_assoc, Nat.add_comm 1] at hlater
    · intro h
      refine ⟨h 0 first rfl, fun index field hfield => ?_⟩
      rw [Nat.add_assoc, Nat.add_comm 1]
      exact h (index + 1) field hfield

/-- **What a valid record is.** -/
theorem validate_eq_ok_iff : schema.validate record = .ok () ↔
    record.schema.id = schema.id ∧
    (∀ (index : Nat) (field : FieldDef), schema.fields[index]? = some field →
      field.Admits ((record.fields[index]?).getD .null)) ∧
    ∀ entry ∈ record.extra, entry.1 ∉ schema.fields.map (·.name) := by
  have hextra : schema.checkExtra record = none ↔
      ∀ entry ∈ record.extra, entry.1 ∉ schema.fields.map (·.name) := by
    rw [checkExtra, findSome?_eq_none_iff]
    refine forall₂_congr fun entry _ => ?_
    obtain ⟨key, value⟩ := entry
    rw [← positionOf_eq_none_iff]
    cases hkey : schema.positionOf key <;> simp [hkey]
  have hfields := @checkFields_eq_none_iff schema record schema.fields 0
  simp only [Nat.zero_add] at hfields
  rw [← hextra, ← hfields]
  unfold validate
  by_cases hid : record.schema.id = schema.id
  · rw [if_neg (not_not.2 hid), ← Option.or_eq_none_iff]
    split
    · next refusal hsome => simp [hid, hsome]
    · next hnone => simp [hid, hnone]
  · simp [hid]

end ObjectSchema

/-! ### Comparing two versions -/

/-- Whether a change keeps existing readers working. -/
inductive Compatibility
  | compatible
  | breaking
deriving DecidableEq

/-- What kind of change one schema made relative to another. -/
inductive SchemaChangeKind
  | schemaRenamed
  | identityChanged
  | defaultViewChanged
  | fieldAdded
  | fieldRemoved
  | fieldTypeWidened
  | fieldTypeChanged
  | fieldUnitChanged
  | fieldRequirementChanged
  | fieldNullabilityWidened
  | fieldNullabilityNarrowed
deriving DecidableEq

/-- One difference between two versions of a schema. -/
structure SchemaChange where
  field : Option String
  kind : SchemaChangeKind
  compatibility : Compatibility
  detail : String

/-- The differences between two declarations of a field. -/
def classifyField (old new : FieldDef) : List SchemaChange :=
  (if old.type = new.type then []
    else
      let widened := old.type.widensTo new.type
      [{ field := some old.name
         kind := if widened then .fieldTypeWidened else .fieldTypeChanged
         compatibility := if widened then .compatible else .breaking
         detail := "field `" ++ old.name ++ "` changed type from " ++ old.type.name ++ " to " ++
           new.type.name }]) ++
  (if old.unit = new.unit then []
    else
      [{ field := some old.name
         kind := .fieldUnitChanged
         compatibility := .breaking
         detail := "field `" ++ old.name ++ "` changed unit, and with it its meaning" }]) ++
  (if old.required = new.required then []
    else
      [{ field := some old.name
         kind := .fieldRequirementChanged
         compatibility := .breaking
         detail := "field `" ++ old.name ++ "` changed whether it is required" }]) ++
  (if old.nullable = new.nullable then []
    else
      [{ field := some old.name
         kind := if new.nullable then .fieldNullabilityWidened else .fieldNullabilityNarrowed
         compatibility := if new.nullable then .breaking else .compatible
         detail :=
           if new.nullable then "field `" ++ old.name ++ "` may now be null"
           else "field `" ++ old.name ++ "` can no longer be null" }])

/-- The differences a declared field of the old version makes. -/
def classifyDeclared (new : ObjectSchema) (field : FieldDef) : List SchemaChange :=
  match new.field field.name with
  | none =>
    [{ field := some field.name
       kind := .fieldRemoved
       compatibility := .breaking
       detail := "field `" ++ field.name ++ "` was removed" }]
  | some next => classifyField field next

/-- The difference a declared field of the new version makes where the old one had none. -/
def classifyAdded (old : ObjectSchema) (field : FieldDef) : List SchemaChange :=
  if (old.field field.name).isSome then []
  else
    [{ field := some field.name
       kind := .fieldAdded
       compatibility := if field.required then .breaking else .compatible
       detail := "field `" ++ field.name ++ "` was added as " ++
         if field.required then "required" else "optional" }]

/-- Every difference between two versions of a schema, in the order they are found. -/
def classifyChange (old new : ObjectSchema) : List SchemaChange :=
  (if old.name = new.name then []
    else
      [{ field := none
         kind := .schemaRenamed
         compatibility := .breaking
         detail := "the type was renamed from " ++ old.name ++ " to " ++ new.name }]) ++
  (if old.identity = new.identity ∧ old.identityFallback = new.identityFallback then []
    else
      [{ field := none
         kind := .identityChanged
         compatibility := .breaking
         detail := "the identity fields changed" }]) ++
  (if old.defaultView = new.defaultView then []
    else
      [{ field := none
         kind := .defaultViewChanged
         compatibility := .compatible
         detail := "the default view columns changed" }]) ++
  old.fields.flatMap (classifyDeclared new) ++ new.fields.flatMap (classifyAdded old)

/-- The strictest verdict any single change carries. -/
def overall (changes : List SchemaChange) : Compatibility :=
  if changes.any (·.compatibility = .breaking) then .breaking else .compatible

theorem overall_eq_compatible_iff {changes : List SchemaChange} :
    overall changes = .compatible ↔ ∀ change ∈ changes, change.compatibility = .compatible := by
  have hbreaking : ∀ verdict : Compatibility, ¬ verdict = .breaking ↔ verdict = .compatible :=
    fun verdict => by cases verdict <;> decide
  rw [overall, ite_eq_right_iff, imp_iff_not (by decide), Bool.not_eq_true, List.any_eq_false]
  simp only [decide_eq_true_eq, hbreaking]

theorem forall_mem_unless {same : Prop} [Decidable same] {change : SchemaChange}
    {p : SchemaChange → Prop} :
    (∀ other ∈ if same then [] else [change], p other) ↔ same ∨ p change := by
  split_ifs with hsame <;> simp [hsame]

/-! ### What a compatible change leaves as it was -/

/-- The readers of `old` go on reading where `new` is declared: the type is the same or wider, the
unit and the requirement are the same, and null comes only where it did. -/
structure FieldDef.Reads (old new : FieldDef) : Prop where
  type : old.type = new.type ∨ old.type.widensTo new.type = true
  unit : old.unit = new.unit
  required : old.required = new.required
  nullable : new.nullable = true → old.nullable = true

theorem FieldDef.Reads.refl (field : FieldDef) : field.Reads field :=
  ⟨.inl rfl, rfl, rfl, id⟩

theorem FieldDef.Reads.trans {first second third : FieldDef} (h : first.Reads second)
    (h' : second.Reads third) : first.Reads third where
  type := by
    rcases h.type with heq | hwidens
    · exact heq ▸ h'.type
    · rcases h'.type with heq | hwider
      · exact .inr (heq ▸ hwidens)
      · rw [FieldType.widensTo_eq_false hwidens] at hwider
        cases hwider
  unit := h.unit.trans h'.unit
  required := h.required.trans h'.required
  nullable := h.nullable ∘ h'.nullable

theorem classifyField_compatible_iff {old new : FieldDef} :
    (∀ change ∈ classifyField old new, change.compatibility = .compatible) ↔ old.Reads new := by
  unfold classifyField
  simp only [forall_mem_append, forall_mem_unless, reduceCtorEq, or_false]
  constructor
  · rintro ⟨⟨⟨htype, hunit⟩, hrequired⟩, hnullable⟩
    refine ⟨htype.imp_right fun hwidened => ?_, hunit, hrequired, fun hnew => ?_⟩
    · by_contra hnot
      rw [if_neg hnot] at hwidened
      cases hwidened
    · rcases hnullable with hsame | hnarrowed
      · exact hsame.trans hnew
      · rw [if_pos hnew] at hnarrowed
        cases hnarrowed
  · rintro ⟨htype, hunit, hrequired, hnullable⟩
    refine ⟨⟨⟨htype.imp_right fun hwidens => if_pos hwidens, hunit⟩, hrequired⟩, ?_⟩
    cases hnew : new.nullable with
    | true => exact .inl (hnullable hnew)
    | false => exact .inr rfl

/-- The readers of a schema go on reading in another version of it: nothing they know of is renamed
or removed, what they read of a field stays, and no field is added that every record must have. -/
structure ObjectSchema.Reads (old new : ObjectSchema) : Prop where
  name : old.name = new.name
  identity : old.identity = new.identity
  identityFallback : old.identityFallback = new.identityFallback
  declared : ∀ field ∈ old.fields, ∃ next, new.field field.name = some next ∧ field.Reads next
  added : ∀ field ∈ new.fields, old.field field.name = none → field.required = false

theorem forall_mem_classifyDeclared {new : ObjectSchema} {field : FieldDef} :
    (∀ change ∈ classifyDeclared new field, change.compatibility = .compatible) ↔
      ∃ next, new.field field.name = some next ∧ field.Reads next := by
  unfold classifyDeclared
  cases new.field field.name with
  | none => simp
  | some next => simp [classifyField_compatible_iff]

theorem forall_mem_classifyAdded {old : ObjectSchema} {field : FieldDef} :
    (∀ change ∈ classifyAdded old field, change.compatibility = .compatible) ↔
      (old.field field.name = none → field.required = false) := by
  unfold classifyAdded
  rw [forall_mem_unless]
  cases old.field field.name with
  | none => cases field.required <;> simp
  | some other => simp

/-- **What the verdict says.** A change is compatible exactly when the readers go on reading. -/
theorem classifyChange_compatible_iff {old new : ObjectSchema} :
    overall (classifyChange old new) = .compatible ↔ old.Reads new := by
  rw [overall_eq_compatible_iff, classifyChange]
  simp only [forall_mem_append, forall_mem_unless, reduceCtorEq, or_false, or_true, and_true,
    forall_mem_flatMap, forall_mem_classifyDeclared, forall_mem_classifyAdded]
  constructor
  · rintro ⟨⟨⟨hname, hidentity, hfallback⟩, hdeclared⟩, hadded⟩
    exact ⟨hname, hidentity, hfallback, hdeclared, hadded⟩
  · rintro ⟨hname, hidentity, hfallback, hdeclared, hadded⟩
    exact ⟨⟨⟨hname, hidentity, hfallback⟩, hdeclared⟩, hadded⟩

namespace ObjectSchema

variable {old new first second third : ObjectSchema} {record : RecordValue}

theorem Reads.refl (schema : ObjectSchema) : schema.Reads schema where
  name := rfl
  identity := rfl
  identityFallback := rfl
  declared field hfield := ⟨field, field_eq_some_iff.2 ⟨hfield, rfl⟩, .refl field⟩
  added field hfield hnone := by
    rw [field_eq_some_iff.2 ⟨hfield, rfl⟩] at hnone
    cases hnone

theorem Reads.trans (h : first.Reads second) (h' : second.Reads third) : first.Reads third where
  name := h.name.trans h'.name
  identity := h.identity.trans h'.identity
  identityFallback := h.identityFallback.trans h'.identityFallback
  declared field hfield := by
    obtain ⟨between, hbetween, hreads⟩ := h.declared field hfield
    obtain ⟨hmem, hname⟩ := field_eq_some_iff.1 hbetween
    obtain ⟨next, hnext, hreads'⟩ := h'.declared between hmem
    exact ⟨next, hname ▸ hnext, hreads.trans hreads'⟩
  added field hfield hnone := by
    cases hbetween : second.field field.name with
    | none => exact h'.added field hfield hbetween
    | some between =>
      -- The field was added on the way, and not required there.
      obtain ⟨hmem, hname⟩ := field_eq_some_iff.1 hbetween
      obtain ⟨next, hnext, hreads⟩ := h'.declared between hmem
      rw [hname, field_eq_some_iff.2 ⟨hfield, rfl⟩] at hnext
      obtain rfl := Option.some.inj hnext
      exact hreads.required ▸ h.added between hmem (hname ▸ hnone)

/-- **Along a chain of versions.** What every version leaves as it was, all of them do. -/
theorem reads_of_chain (h : Relation.ReflTransGen ObjectSchema.Reads old new) : old.Reads new := by
  induction h with
  | refl => exact .refl old
  | tail _ hlast ih => exact ih.trans hlast

/-! ### Records of another version -/

/-- A record read by name through a version of its schema, with its extensions. -/
def project (schema : ObjectSchema) (record : RecordValue) : RecordValue where
  schema := schema.names
  fields := schema.fields.map fun field => (record.get field.name).getD .null
  extra := record.extra
  provenance := record.provenance

/-- Where no type was widened, the types are the same. -/
theorem Reads.type_eq (h : old.Reads new)
    (hunwidened : ∀ change ∈ classifyChange old new, change.kind ≠ .fieldTypeWidened)
    {field next : FieldDef} (hfield : field ∈ old.fields)
    (hnext : new.field field.name = some next) : field.type = next.type := by
  obtain ⟨other, hother, hreads⟩ := h.declared field hfield
  rw [hnext] at hother
  obtain rfl := Option.some.inj hother
  rcases hreads.type with heq | hwidens
  · exact heq
  · by_contra hne
    have hclassified : ∀ change ∈ classifyDeclared new field, change.kind ≠ .fieldTypeWidened :=
      fun change hchange => hunwidened change (mem_append_left _ (mem_append_right _
        (mem_flatMap.2 ⟨field, hfield, hchange⟩)))
    rw [classifyDeclared, hnext] at hclassified
    unfold classifyField at hclassified
    simp only [forall_mem_append, forall_mem_unless] at hclassified
    rcases hclassified.1.1.1 with heq | hkind
    · exact hne heq
    · exact hkind (if_pos hwidens)

theorem admits_of_reads {field next : FieldDef} (h : field.Reads next)
    (htype : field.type = next.type) {value : Value} (hadmits : next.Admits value) :
    field.Admits value := by
  rcases hadmits with hfailed | ⟨rfl, hrequired, hnullable⟩ | ⟨hknown, haccepts⟩
  · exact .inl hfailed
  · exact .inr (.inl ⟨rfl, h.required ▸ hrequired, h.nullable hnullable⟩)
  · exact .inr (.inr ⟨hknown, htype ▸ haccepts⟩)

theorem get_eq_getElem? (hschema : record.schema.fields = schema.names.fields) {index : Nat}
    {field : FieldDef} (hfield : schema.fields[index]? = some field) :
    record.get field.name = record.fields[index]? := by
  have hposition : record.schema.positionOf field.name = some index := by
    rw [Schema.positionOf, hschema]
    exact positionOf_eq_some_iff.2 ⟨field, hfield, rfl⟩
  rw [RecordValue.get, hposition]

/-- **A compatible version keeps its readers.** Where no type was widened, a valid record of the new
version is valid when it is read by name through the old one. -/
theorem validate_project (hcompatible : overall (classifyChange old new) = .compatible)
    (hunwidened : ∀ change ∈ classifyChange old new, change.kind ≠ .fieldTypeWidened)
    (hschema : record.schema.fields = new.names.fields) (hvalid : new.validate record = .ok ()) :
    old.validate (old.project record) = .ok () := by
  have hreads := classifyChange_compatible_iff.1 hcompatible
  obtain ⟨-, hfields, hextra⟩ := validate_eq_ok_iff.1 hvalid
  refine validate_eq_ok_iff.2 ⟨rfl, fun index field hfield => ?_, fun entry hentry hshadows => ?_⟩
  · have hmem := mem_of_getElem? hfield
    obtain ⟨next, hnext, hread⟩ := hreads.declared field hmem
    obtain ⟨hnextMem, hname⟩ := field_eq_some_iff.1 hnext
    obtain ⟨place, hplace⟩ := mem_iff_getElem?.1 hnextMem
    have hvalue : ((old.project record).fields[index]?).getD .null =
        (record.fields[place]?).getD .null := by
      rw [project, getElem?_map, hfield, Option.map_some, Option.getD_some, ← hname,
        get_eq_getElem? hschema hplace]
    rw [hvalue]
    exact admits_of_reads hread (hreads.type_eq hunwidened hmem hnext) (hfields place next hplace)
  · obtain ⟨field, hfield, hkey⟩ := mem_map.1 hshadows
    obtain ⟨next, hnext, -⟩ := hreads.declared field hfield
    obtain ⟨hnextMem, hname⟩ := field_eq_some_iff.1 hnext
    exact hextra entry hentry (hkey ▸ hname ▸ mem_map_of_mem hnextMem)

end ObjectSchema

/-- **Compatibility is sound for readers, and a preorder.** A compatible version that widens no type
keeps its readers on every valid record that declares its fields in its order; every schema is
compatible with itself, and so is the last of any chain of compatible versions with the first. -/
theorem compatible_sound :
    (∀ (old new : ObjectSchema) (record : RecordValue),
      overall (classifyChange old new) = .compatible →
        (∀ change ∈ classifyChange old new, change.kind ≠ .fieldTypeWidened) →
          record.schema.fields = new.names.fields → new.validate record = .ok () →
            old.validate (old.project record) = .ok ()) ∧
    (∀ schema, overall (classifyChange schema schema) = .compatible) ∧
    ∀ old new, Relation.TransGen (fun first second : ObjectSchema =>
      overall (classifyChange first second) = .compatible) old new →
        overall (classifyChange old new) = .compatible := by
  refine ⟨fun _ _ _ => ObjectSchema.validate_project,
    fun schema => classifyChange_compatible_iff.2 (.refl schema), fun old new hchain => ?_⟩
  simp only [classifyChange_compatible_iff] at hchain ⊢
  exact ObjectSchema.reads_of_chain hchain.to_reflTransGen

namespace Reordered

/-- The number of the things in question. -/
def count : FieldDef :=
  ⟨"count", .int, true, false, none⟩

/-- What the things are called. -/
def label : FieldDef :=
  ⟨"label", .string, true, false, none⟩

/-- A version that declares the number first. -/
def old : ObjectSchema where
  id := ⟨"ono.demo", 1⟩
  name := "Demo"
  fields := [count, label]
  identity := ["label"]
  identityFallback := []
  defaultView := ["label", "count"]
  distinct := by decide
  declared := by decide

/-- A version that declares it last. -/
def new : ObjectSchema where
  id := ⟨"ono.demo", 1⟩
  name := "Demo"
  fields := [label, count]
  identity := ["label"]
  identityFallback := []
  defaultView := ["label", "count"]
  distinct := by decide
  declared := by decide

/-- A record with the fields of a schema. -/
def record (schema : ObjectSchema) (fields : List Value) : RecordValue where
  schema := schema.names
  fields := fields
  extra := []
  provenance := ⟨"test", none, none, .onThisHost, schema.id, none, none⟩

end Reordered

theorem compatible_sound_reordered :
    Reordered.old.validate (Reordered.old.project
      (Reordered.record Reordered.new [.string "cron", .int 3])) = .ok () :=
  compatible_sound.1 Reordered.old Reordered.new _ (by decide) (by decide) rfl rfl

/-- **Checked positions, read names.** Between two versions of one identity that only differ in the
order of their fields, nothing is classified as a change. A record is checked by position, whichever
of them it was made with: one that names its values wrongly passes the other version, and fails when
it is read by its own names. -/
theorem not_compatible_sound_reordered :
    ¬ ∀ (old new : ObjectSchema) (record : RecordValue),
      overall (classifyChange old new) = .compatible →
        (∀ change ∈ classifyChange old new, change.kind ≠ .fieldTypeWidened) →
          new.validate record = .ok () → old.validate (old.project record) = .ok () := by
  intro h
  have hvalid := h Reordered.old Reordered.new
    (Reordered.record Reordered.old [.string "cron", .int 3]) (by decide) (by decide) rfl
  cases hvalid

end OnoSendai
