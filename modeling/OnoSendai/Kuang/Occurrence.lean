import OnoSendai.Kuang.Decode

/-!
# Records in values and in documents

Where a record stands in a value, and where a document writes one: at which places of a document
the decoder builds a record, and which provider its provenance names there. The decoder builds a
record of a provider exactly where the document writes one.
-/

namespace OnoSendai

open Json RecordValue Prod
open List hiding getElem?_eq_some_iff

/-! ### In values -/

/-- A record stands somewhere in a value, at any depth. -/
inductive Occurs (record : RecordValue) : Value → Prop
  | here {value : Value} (h : value = record.intoValue) : Occurs record value
  | item {items : List Value} {value : Value} (h : value ∈ items) (hvalue : Occurs record value) :
    Occurs record (.list items)
  | entry {entries : MapValue} {entry : String × Value} (h : entry ∈ entries)
    (hvalue : Occurs record entry.2) : Occurs record (.map entries)
  | field {schema : Schema} {fields : List Value} {extra : MapValue} {provenance : Provenance}
    {value : Value} (h : value ∈ fields) (hvalue : Occurs record value) :
    Occurs record (.record schema fields extra provenance)
  | extra {schema : Schema} {fields : List Value} {extra : MapValue} {provenance : Provenance}
    {entry : String × Value} (h : entry ∈ extra) (hvalue : Occurs record entry.2) :
    Occurs record (.record schema fields extra provenance)
  | metadata {error : ErrorDetail Value} {causes : List (ErrorDetail Value)}
    {detail : ErrorDetail Value} {entry : String × Value} (hdetail : detail ∈ error :: causes)
    (h : entry ∈ detail.metadata) (hvalue : Occurs record entry.2) :
    Occurs record (.error error causes)
  | identity {error : ErrorDetail Value} {causes : List (ErrorDetail Value)}
    {detail : ErrorDetail Value} {schema : SchemaId} {identity : MapValue}
    {entry : String × Value} (hdetail : detail ∈ error :: causes)
    (htarget : detail.target = some (.object schema identity)) (h : entry ∈ identity)
    (hvalue : Occurs record entry.2) : Occurs record (.error error causes)

/-- A record somewhere in a value names a provider. -/
def Names (name : String) (value : Value) : Prop :=
  ∃ record, Occurs record value ∧ record.provenance.provider = name

/-- A record somewhere in what an error carries names a provider. -/
def NamesDetail (name : String) (detail : ErrorDetail Value) : Prop :=
  (∃ entry ∈ detail.metadata, Names name entry.2) ∨
    ∃ schema identity, detail.target = some (.object schema identity) ∧
      ∃ entry ∈ identity, Names name entry.2

section Values

variable {name : String}

theorem intoValue_injective {record other : RecordValue} (h : record.intoValue = other.intoValue) :
    record = other := by
  cases record
  cases other
  simpa [intoValue] using h

theorem names_list {items : List Value} :
    Names name (.list items) ↔ ∃ value ∈ items, Names name value := by
  constructor
  · rintro ⟨record, hoccurs, hname⟩
    cases hoccurs with
    | here h => cases h
    | item h hvalue => exact ⟨_, h, record, hvalue, hname⟩
  · rintro ⟨value, h, record, hvalue, hname⟩
    exact ⟨record, .item h hvalue, hname⟩

theorem names_map {entries : MapValue} :
    Names name (.map entries) ↔ ∃ entry ∈ entries, Names name entry.2 := by
  constructor
  · rintro ⟨record, hoccurs, hname⟩
    cases hoccurs with
    | here h => cases h
    | entry h hvalue => exact ⟨_, h, record, hvalue, hname⟩
  · rintro ⟨entry, h, record, hvalue, hname⟩
    exact ⟨record, .entry h hvalue, hname⟩

theorem names_record {record : RecordValue} :
    Names name record.intoValue ↔ record.provenance.provider = name ∨
      (∃ value ∈ record.fields, Names name value) ∨ ∃ entry ∈ record.extra, Names name entry.2 := by
  constructor
  · rintro ⟨found, hoccurs, hname⟩
    cases hoccurs with
    | here h =>
      rw [intoValue_injective h]
      exact .inl hname
    | field h hvalue => exact .inr (.inl ⟨_, h, found, hvalue, hname⟩)
    | extra h hvalue => exact .inr (.inr ⟨_, h, found, hvalue, hname⟩)
  · rintro (hname | ⟨value, h, found, hvalue, hname⟩ | ⟨entry, h, found, hvalue, hname⟩)
    · exact ⟨record, .here rfl, hname⟩
    · exact ⟨found, .field h hvalue, hname⟩
    · exact ⟨found, .extra h hvalue, hname⟩

theorem names_error {error : ErrorDetail Value} {causes : List (ErrorDetail Value)} :
    Names name (.error error causes) ↔ ∃ detail ∈ error :: causes, NamesDetail name detail := by
  constructor
  · rintro ⟨record, hoccurs, hname⟩
    cases hoccurs with
    | here h => cases h
    | metadata hdetail h hvalue => exact ⟨_, hdetail, .inl ⟨_, h, record, hvalue, hname⟩⟩
    | identity hdetail htarget h hvalue =>
      exact ⟨_, hdetail, .inr ⟨_, _, htarget, _, h, record, hvalue, hname⟩⟩
  · rintro ⟨detail, hdetail, ⟨entry, h, record, hvalue, hname⟩ |
      ⟨schema, identity, htarget, entry, h, record, hvalue, hname⟩⟩
    · exact ⟨record, .metadata hdetail h hvalue, hname⟩
    · exact ⟨record, .identity hdetail htarget h hvalue, hname⟩

/-- Whether a value holds no other values. -/
def Value.isScalar : Value → Bool
  | .list _ | .map _ | .record .. | .error .. => false
  | _ => true

theorem not_names_of_isScalar {value : Value} (h : value.isScalar = true) : ¬ Names name value := by
  rintro ⟨record, hoccurs, -⟩
  cases hoccurs with
  | here hvalue =>
    rw [hvalue] at h
    cases h
  | item | entry | field | extra | metadata | identity => cases h

end Values

/-! ### In documents -/

/-- Whether an object is decoded as a map: it is not a single tagged member. -/
def isPlain : Members → Bool
  | [(tag, _)] => tag ≠ "$record" && tag ≠ "$error" && tag ∉ scalarTags
  | _ => true

mutual

/-- The document writes a record that names a provider, at some place where one is decoded. -/
inductive Writes (name : String) : Json → Prop
  | item {items : List Json} {item : Json} (h : item ∈ items) (hitem : Writes name item) :
    Writes name (.array items)
  | here {members record : Members} (hrecord : members = [("$record", .object record)])
    (h : providerFromJson (member record "provenance") = name) : Writes name (.object members)
  | field {members record : Members} {entry : String × Json}
    (hrecord : members = [("$record", .object record)]) (h : entry ∈ inner record "fields")
    (hentry : Writes name entry.2) : Writes name (.object members)
  | extra {members record : Members} {entry : String × Json}
    (hrecord : members = [("$record", .object record)]) (h : entry ∈ inner record "extra")
    (hentry : Writes name entry.2) : Writes name (.object members)
  | error {members : Members} {payload : Json} (herror : members = [("$error", payload)])
    (h : WritesError name payload) : Writes name (.object members)
  | entry {members : Members} {entry : String × Json} (hplain : isPlain members = true)
    (h : entry ∈ members) (hentry : Writes name entry.2) : Writes name (.object members)

/-- The payload of an error writes a record that names a provider. -/
inductive WritesError (name : String) : Json → Prop
  | metadata {members : Members} {entry : String × Json}
    (h : entry ∈ inner members "metadata") (hentry : Writes name entry.2) :
    WritesError name (.object members)
  | identity {members target : Members} {entry : String × Json}
    (htarget : member members "target" = .object target)
    (hkind : text target "kind" = some "object")
    (h : entry ∈ inner target "identity") (hentry : Writes name entry.2) :
    WritesError name (.object members)
  | cause {members : Members} (h : WritesError name (member members "source")) :
    WritesError name (.object members)

end

variable {payload : Json}

section Documents

variable {name : String}

theorem writes_array {items : List Json} :
    Writes name (.array items) ↔ ∃ item ∈ items, Writes name item := by
  constructor
  · rintro ⟨⟩
    exact ⟨_, ‹_›, ‹_›⟩
  · rintro ⟨item, h, hitem⟩
    exact .item h hitem

theorem writes_record {record : Members} :
    Writes name (.object [("$record", .object record)]) ↔
      providerFromJson (member record "provenance") = name ∨
        (∃ entry ∈ inner record "fields", Writes name entry.2) ∨
        ∃ entry ∈ inner record "extra", Writes name entry.2 := by
  constructor
  · intro h
    cases h with
    | here hrecord h =>
      cases hrecord
      exact .inl h
    | field hrecord h hentry =>
      cases hrecord
      exact .inr (.inl ⟨_, h, hentry⟩)
    | extra hrecord h hentry =>
      cases hrecord
      exact .inr (.inr ⟨_, h, hentry⟩)
    | error herror => simp at herror
    | entry hplain => simp [isPlain] at hplain
  · rintro (h | ⟨entry, h, hentry⟩ | ⟨entry, h, hentry⟩)
    · exact .here rfl h
    · exact .field rfl h hentry
    · exact .extra rfl h hentry

theorem writes_error : Writes name (.object [("$error", payload)]) ↔ WritesError name payload := by
  constructor
  · intro h
    cases h with
    | error herror h =>
      cases herror
      exact h
    | here hrecord | field hrecord | extra hrecord => simp at hrecord
    | entry hplain => simp [isPlain] at hplain
  · exact .error rfl

theorem writes_plain {members : Members} (hplain : isPlain members = true) :
    Writes name (.object members) ↔ ∃ entry ∈ members, Writes name entry.2 := by
  constructor
  · intro h
    cases h with
    | here hrecord | field hrecord | extra hrecord => simp [hrecord, isPlain] at hplain
    | error herror => simp [herror, isPlain] at hplain
    | entry _ h hentry => exact ⟨_, h, hentry⟩
  · rintro ⟨entry, h, hentry⟩
    exact .entry hplain h hentry

theorem not_writes_scalar {tag : String} (h : tag ∈ scalarTags) :
    ¬ Writes name (.object [(tag, payload)]) := by
  intro hwrites
  cases hwrites with
  | here hrecord | field hrecord | extra hrecord =>
    cases hrecord
    exact absurd h (by decide)
  | error herror =>
    cases herror
    exact absurd h (by decide)
  | entry hplain => simp [isPlain, h] at hplain

end Documents

/-! ### Decoding -/

theorem isScalar_of_map {α : Type} {read : Except ErrorValue α} {form : α → Value} {value : Value}
    (hform : ∀ content, (form content).isScalar = true) (h : read.map form = .ok value) :
    value.isScalar = true := by
  cases read with
  | error error => cases h
  | ok content =>
    cases h
    exact hform content

theorem isScalar_of_bind {α : Type} {read : Except ErrorValue α}
    {next : α → Except ErrorValue Value} {value : Value}
    (hnext : ∀ content, next content = .ok value → value.isScalar = true)
    (h : read.bind next = .ok value) : value.isScalar = true := by
  cases read with
  | error error => cases h
  | ok content => exact hnext content h

/-- A scalar is decoded to a value that holds no other values. -/
theorem isScalar_of_scalarFromJson {readers : Readers} {tag : String} {value : Value}
    (h : scalarFromJson readers tag payload = .ok value) : value.isScalar = true := by
  have hscalars : ∀ entry ∈ scalars readers, ∀ tag payload value,
      entry.2 tag payload = .ok value → value.isScalar = true := by
    have htext {α : Type} {read : String → Except ErrorValue α} {form : α → Value}
        (hform : ∀ content, (form content).isScalar = true) (tag : String) (payload : Json)
        (value : Value) (h : ofText (fun text => (read text).map form) tag payload = .ok value) :
        value.isScalar = true :=
      isScalar_of_bind (fun _ => isScalar_of_map hform) h
    have hpath (tag : String) (payload : Json) (value : Value)
        (h : ofText (fun text => .ok (.path (bytesOf text))) tag payload = .ok value) :
        value.isScalar = true :=
      isScalar_of_bind (fun _ hread => by cases hread; rfl) h
    have hsize (tag : String) (payload : Json) (value : Value)
        (h : byteSizeFromJson tag payload = .ok value) : value.isScalar = true := by
      cases payload with
      | number _ | string _ => exact isScalar_of_map (fun _ => rfl) h
      | null | bool _ | array _ | object _ => cases h
    have hpercent (tag : String) (payload : Json) (value : Value)
        (h : percentFromJson readers tag payload = .ok value) : value.isScalar = true := by
      cases payload with
      | number _ =>
        cases h
        rfl
      | string _ => exact isScalar_of_map (fun _ => rfl) h
      | null | bool _ | array _ | object _ => cases h
    have hport (tag : String) (payload : Json) (value : Value)
        (h : portFromJson tag payload = .ok value) : value.isScalar = true :=
      isScalar_of_map (fun _ => rfl) h
    simp only [scalars, forall_mem_cons]
    exact ⟨fun tag => htext (fun _ => rfl) tag, fun tag => htext (fun _ => rfl) tag,
      htext fun _ => rfl, fun tag => htext (fun _ => rfl) tag, hpath,
      fun tag => htext (fun _ => rfl) tag, fun tag => htext (fun _ => rfl) tag,
      htext fun _ => rfl, hsize, hpercent, htext fun _ => rfl, htext fun _ => rfl,
      fun tag => htext (fun _ => rfl) tag, htext fun _ => rfl, hport, by simp⟩
  unfold scalarFromJson at h
  cases hread : (scalars readers).lookup tag with
  | none => simp [hread] at h
  | some read =>
    rw [hread] at h
    exact hscalars _ (mem_of_lookup hread) tag payload value h

section Decoding

variable {readers : Readers} {name : String}

/-- What a document decodes to holds the records that it writes. -/
def Agrees (readers : Readers) (json : Json) : Prop :=
  ∀ value, fromJson readers json = .ok value → ∀ name, Names name value ↔ Writes name json

/-- What the payload of an error decodes to holds the records that it writes. -/
def AgreesError (readers : Readers) (payload : Json) : Prop :=
  ∀ error, errorFromJson readers payload = .ok error →
    ∀ name, (∃ detail ∈ error.1 :: error.2, NamesDetail name detail) ↔ WritesError name payload

/-- The items of a list hold the records that they write. -/
theorem names_items {items : List Json} {values : List Value}
    (h : itemsFromJson readers items = .ok values) (hitems : ∀ item ∈ items, Agrees readers item) :
    (∃ value ∈ values, Names name value) ↔ ∃ item ∈ items, Writes name item := by
  induction items generalizing values with
  | nil =>
    rw [itemsFromJson] at h
    cases h
    simp
  | cons item items ih =>
    rw [itemsFromJson] at h
    obtain ⟨value, hvalue, h⟩ := ok_of_bind h
    obtain ⟨rest, hrest, h⟩ := ok_of_bind h
    cases h
    rw [exists_mem_cons_iff, exists_mem_cons_iff,
      hitems item mem_cons_self value hvalue name,
      ih hrest fun other hother => hitems other (mem_cons_of_mem _ hother)]

theorem mapInsert_of_notMem {map : MapValue} {key : String} {value : Value}
    (h : key ∉ map.map fst) : mapInsert map key value = map ++ [(key, value)] := by
  induction map with
  | nil => rfl
  | cons entry rest ih =>
    obtain ⟨first, old⟩ := entry
    rw [map_cons, mem_cons, not_or] at h
    rw [mapInsert, if_neg (Ne.symm h.1), ih h.2]
    rfl

/-- The entries of a map hold the records that they write, besides those already there. -/
theorem names_entries {members : Members} {map entries : MapValue}
    (h : entriesFromJson readers map members = .ok entries)
    (hkeys : (map.map fst ++ members.map fst).Nodup)
    (hmembers : ∀ entry ∈ members, Agrees readers entry.2) :
    (∃ entry ∈ entries, Names name entry.2) ↔
      (∃ entry ∈ map, Names name entry.2) ∨ ∃ entry ∈ members, Writes name entry.2 := by
  induction members generalizing map with
  | nil =>
    rw [entriesFromJson] at h
    cases h
    simp
  | cons entry rest ih =>
    obtain ⟨key, json⟩ := entry
    rw [entriesFromJson] at h
    obtain ⟨value, hvalue, h⟩ := ok_of_bind h
    have hfresh : key ∉ map.map fst := by
      intro hmem
      exact (nodup_append.mp hkeys).2.2 key hmem key (by simp) rfl
    rw [mapInsert_of_notMem hfresh] at h
    rw [ih h (by simpa using hkeys) fun other hother =>
      hmembers other (mem_cons_of_mem _ hother), exists_mem_cons_iff, ← or_assoc]
    have hhead := hmembers (key, json) mem_cons_self value hvalue name
    simp only [mem_append, mem_singleton, or_and_right, exists_or, exists_eq_left, hhead]

/-- A record into which declared fields can still be decoded: it has a place for every field of its
schema, and those of the given names are unknown. -/
structure Awaits (record : RecordValue) (names : List String) : Prop where
  length : record.fields.length = record.schema.fields.length
  unknown : ∀ field ∈ names, ∀ place, record.schema.positionOf field = some place →
    record.fields[place]? = some .null

theorem positionOf_injective {schema : Schema} {field other : String} {place : Nat}
    (h : schema.positionOf field = some place) (hother : schema.positionOf other = some place) :
    field = other := by
  obtain ⟨hlt, hfield, -⟩ := idxOf?_eq_some_iff.mp h
  obtain ⟨_, hsame, -⟩ := idxOf?_eq_some_iff.mp hother
  exact hfield.symm.trans hsame

theorem awaits_builder (schema : Schema) (provenance : Provenance) (names : List String) :
    Awaits (.builder schema provenance) names where
  length := length_replicate
  unknown field _ place hplace := by
    obtain ⟨hlt, -⟩ := idxOf?_eq_some_iff.mp hplace
    simp only [builder] at hlt ⊢
    rw [getElem?_replicate, if_pos hlt]

/-- Setting a field adds the records of its value, and the other fields are still awaited. -/
theorem names_set {record next : RecordValue} {field : String} {value : Value}
    {others : List String} (h : record.set field value = .ok next)
    (hawaits : Awaits record (field :: others)) (hother : field ∉ others) :
    Awaits next others ∧ next.provenance = record.provenance ∧ next.extra = record.extra ∧
      ((∃ value ∈ next.fields, Names name value) ↔
        Names name value ∨ ∃ value ∈ record.fields, Names name value) := by
  unfold RecordValue.set at h
  cases hplace : record.schema.positionOf field with
  | none => simp [hplace] at h
  | some place =>
    simp only [hplace, Except.ok.injEq] at h
    subst h
    have hnull := hawaits.unknown field List.mem_cons_self place hplace
    obtain ⟨hlt, hget⟩ := List.getElem?_eq_some_iff.mp hnull
    refine ⟨⟨by simpa using hawaits.length, ?_⟩, rfl, rfl, ?_⟩
    · intro later hlater other hposition
      have hne : place ≠ other := by
        rintro rfl
        exact hother (positionOf_injective hplace hposition ▸ hlater)
      rw [getElem?_set_ne hne]
      exact hawaits.unknown later (mem_cons_of_mem _ hlater) other hposition
    · -- the value takes the place of a null, which holds no record
      have hsplit : record.fields =
          record.fields.take place ++ .null :: record.fields.drop (place + 1) := by
        rw [← hget, getElem_cons_drop, take_append_drop]
      have hnone : ¬ Names name .null := not_names_of_isScalar rfl
      rw [set_eq_take_append_cons_drop, if_pos hlt]
      conv_rhs => rw [hsplit]
      simp only [mem_append, mem_cons, or_and_right, exists_or, exists_eq_left, hnone,
        false_or]
      exact or_left_comm

/-- The declared fields of a record hold the records that they write. -/
theorem names_fields {members : Members} {record built : RecordValue}
    (h : fieldsFromJson readers record members = .ok built)
    (hawaits : Awaits record (members.map fst)) (hkeys : (members.map fst).Nodup)
    (hmembers : ∀ entry ∈ members, Agrees readers entry.2) :
    built.provenance = record.provenance ∧ built.extra = record.extra ∧
      ((∃ value ∈ built.fields, Names name value) ↔
        (∃ value ∈ record.fields, Names name value) ∨ ∃ entry ∈ members, Writes name entry.2) := by
  induction members generalizing record with
  | nil =>
    rw [fieldsFromJson] at h
    cases h
    simp
  | cons entry rest ih =>
    obtain ⟨field, json⟩ := entry
    rw [fieldsFromJson] at h
    obtain ⟨value, hvalue, h⟩ := ok_of_bind h
    obtain ⟨next, hset, h⟩ := ok_of_bind h
    rw [map_cons, nodup_cons] at hkeys
    obtain ⟨hnext, hprovenance, hextra, hnames⟩ := @names_set name _ _ _ _ _ hset hawaits hkeys.1
    obtain ⟨hbuilt, hbuiltExtra, hiff⟩ := ih h hnext hkeys.2 fun other hother =>
      hmembers other (mem_cons_of_mem _ hother)
    refine ⟨hbuilt.trans hprovenance, hbuiltExtra.trans hextra, ?_⟩
    rw [hiff, hnames, exists_mem_cons_iff,
      hmembers (field, json) mem_cons_self value hvalue name, or_assoc]
    exact or_left_comm

theorem provider_of_provenanceFromJson {schema : SchemaId} {provenance : Provenance}
    (h : provenanceFromJson readers payload schema = .ok provenance) :
    provenance.provider = providerFromJson payload := by
  unfold provenanceFromJson at h
  cases payload with
  | object members =>
    obtain ⟨recorded, -, h⟩ := ok_of_bind h
    obtain ⟨observed, -, h⟩ := ok_of_bind h
    cases h
    rfl
  | null | bool _ | number _ | string _ | array _ =>
    cases h
    rfl

theorem openRecord_spec {members : Members} {record : RecordValue}
    (h : openRecord readers members = .ok record) :
    ∃ schema provenance, record = .builder schema provenance ∧
      provenance.provider = providerFromJson (member members "provenance") := by
  obtain ⟨text, -, h⟩ := ok_of_bind h
  obtain ⟨id, -, h⟩ := ok_of_bind h
  obtain ⟨schema, -, h⟩ := ok_of_bind h
  obtain ⟨provenance, hprovenance, h⟩ := ok_of_bind h
  cases h
  exact ⟨schema, provenance, rfl, provider_of_provenanceFromJson hprovenance⟩

theorem unique_member {members : Members} (h : (object members).Unique) (key : String) :
    (member members key).Unique := by
  by_cases hnull : member members key = .null
  · rw [hnull]
    exact .null
  · cases h with
    | object _ h => exact h _ (mem_of_member hnull)

theorem unique_inner {members : Members} (h : (object members).Unique) (key : String) :
    ((inner members key).map fst).Nodup ∧ ∀ entry ∈ inner members key, entry.2.Unique := by
  have hmember := unique_member h key
  unfold Json.inner
  cases hfound : Json.member members key with
  | object found =>
    rw [hfound] at hmember
    cases hmember with
    | object hkeys h => exact ⟨hkeys, h⟩
  | null | bool _ | number _ | string _ | array _ => exact ⟨nodup_nil, by simp [asObject]⟩

theorem sizeOf_entry_lt {members : Members} {entry : String × Json} (h : entry ∈ members) :
    sizeOf entry.2 < sizeOf members := by
  have hlt := sizeOf_lt_of_mem h
  obtain ⟨key, json⟩ := entry
  simp only [Prod.mk.sizeOf_spec] at hlt
  dsimp only
  omega

/-- A record holds the records that it writes, where its members do. -/
theorem agrees_record {members : Members} (hunique : (object members).Unique)
    (h : ∀ key, ∀ entry ∈ inner members key, Agrees readers entry.2) {value : Value}
    (hvalue : recordFromJson readers (.object members) = .ok value) :
    Names name value ↔ Writes name (.object [("$record", .object members)]) := by
  rw [recordFromJson] at hvalue
  obtain ⟨opened, hopened, hvalue⟩ := ok_of_bind hvalue
  obtain ⟨built, hbuilt, hvalue⟩ := ok_of_bind hvalue
  obtain ⟨extra, hextra, hvalue⟩ := ok_of_bind hvalue
  cases hvalue
  obtain ⟨schema, provenance, rfl, hprovider⟩ := openRecord_spec hopened
  obtain ⟨hkept, hnoExtra, hfields⟩ := @names_fields readers name _ _ _ hbuilt
    (awaits_builder schema provenance _) (unique_inner hunique "fields").1 (h "fields")
  rw [hnoExtra] at hextra
  have hentries := @names_entries readers name _ _ _ hextra
    (by simpa [builder] using (unique_inner hunique "extra").1) (h "extra")
  have hempty : ¬ ∃ value ∈ (builder schema provenance).fields, Names name value := by
    rintro ⟨value, hmem, hnames⟩
    rw [eq_of_mem_replicate hmem] at hnames
    exact not_names_of_isScalar rfl hnames
  have hnoEntries : ¬ ∃ entry ∈ (builder schema provenance).extra,
      Names name entry.2 := by
    rintro ⟨entry, hmem, -⟩
    cases hmem
  rw [names_record, writes_record, hkept, hfields, hentries, ← hprovider]
  simp only [hempty, hnoEntries, false_or]
  rfl

/-- What an error is about holds the records that it writes, where its members do. -/
theorem names_target {json : Json} {target : Option (ValueRef Value)}
    (h : targetFromJson readers json = .ok target) (hunique : json.Unique)
    (hidentity : ∀ members, json = .object members →
      ∀ entry ∈ inner members "identity", Agrees readers entry.2) :
    (∃ schema identity, target = some (.object schema identity) ∧
        ∃ entry ∈ identity, Names name entry.2) ↔
      ∃ members, json = .object members ∧ text members "kind" = some "object" ∧
        ∃ entry ∈ inner members "identity", Writes name entry.2 := by
  cases json with
  | null | bool _ | number _ | string _ | array _ =>
    rw [targetFromJson] at h
    · cases h
      simp
    · simp
  | object members =>
    rw [targetFromJson] at h
    obtain ⟨found, hfound, h⟩ := ok_of_bind h
    cases h
    unfold refFromJson at hfound
    split at hfound
    · rename_i hkind
      obtain ⟨value, -, hfound⟩ := ok_of_bind hfound
      obtain ⟨path, -, hfound⟩ := ok_of_bind hfound
      cases hfound
      simp [hkind]
    · rename_i hkind
      cases htext : orBadTag "target" (text members "name") with
      | error error => simp [htext, Except.map] at hfound
      | ok text =>
        rw [htext] at hfound
        cases hfound
        simp [hkind]
    · rename_i hkind
      obtain ⟨text, -, hfound⟩ := ok_of_bind hfound
      obtain ⟨id, -, hfound⟩ := ok_of_bind hfound
      obtain ⟨identity, hentries, hfound⟩ := ok_of_bind hfound
      cases hfound
      have hiff := @names_entries readers name _ _ _ hentries
        (by simpa using (unique_inner hunique "identity").1) (hidentity members rfl)
      simp only [not_mem_nil, false_and, exists_false, false_or] at hiff
      constructor
      · rintro ⟨schema, found, htarget, hnames⟩
        cases htarget
        exact ⟨members, rfl, hkind, hiff.mp hnames⟩
      · rintro ⟨found, hobject, -, hwrites⟩
        cases hobject
        exact ⟨id, identity, rfl, hiff.mpr hwrites⟩
    · cases hfound

/-- The errors an error was raised from hold the records that they write. -/
theorem names_causes {source : Json} {causes : List (ErrorDetail Value)}
    (h : causesFromJson readers source = .ok causes) (hsource : AgreesError readers source) :
    (∃ detail ∈ causes, NamesDetail name detail) ↔ WritesError name source := by
  by_cases hnull : source = .null
  · subst hnull
    rw [causesFromJson] at h
    cases h
    simp only [not_mem_nil, false_and, exists_false, false_iff]
    intro hwrites
    cases hwrites
  · rw [causesFromJson] at h
    · obtain ⟨cause, hcause, h⟩ := ok_of_bind h
      cases h
      exact hsource cause hcause name
    · exact hnull

/-- An error holds the records that its payload writes, where its members do. -/
theorem agreesError_object {members : Members} (hunique : (object members).Unique)
    (hmetadata : ∀ entry ∈ inner members "metadata", Agrees readers entry.2)
    (hidentity : ∀ target, member members "target" = .object target →
      ∀ entry ∈ inner target "identity", Agrees readers entry.2)
    (hsource : AgreesError readers (member members "source")) :
    AgreesError readers (.object members) := by
  intro error herror name
  rw [errorFromJson] at herror
  obtain ⟨opened, -, herror⟩ := ok_of_bind herror
  obtain ⟨target, htarget, herror⟩ := ok_of_bind herror
  obtain ⟨metadata, hentries, herror⟩ := ok_of_bind herror
  obtain ⟨causes, hcauses, herror⟩ := ok_of_bind herror
  cases herror
  have hmetadataIff := @names_entries readers name _ _ _ hentries
    (by simpa using (unique_inner hunique "metadata").1) hmetadata
  have htargetIff := @names_target readers name _ _ htarget (unique_member hunique "target")
    hidentity
  have hcausesIff := @names_causes readers name _ _ hcauses hsource
  simp only [not_mem_nil, false_and, exists_false, false_or] at hmetadataIff
  rw [exists_mem_cons_iff, hcausesIff, NamesDetail, hmetadataIff, htargetIff]
  constructor
  · rintro ((⟨entry, h, hentry⟩ | ⟨found, hfound, hkind, entry, h, hentry⟩) | hcause)
    · exact .metadata h hentry
    · exact .identity hfound hkind h hentry
    · exact .cause hcause
  · intro h
    cases h with
    | metadata h hentry => exact .inl (.inl ⟨_, h, hentry⟩)
    | identity hfound hkind h hentry => exact .inl (.inr ⟨_, hfound, hkind, _, h, hentry⟩)
    | cause hcause => exact .inr hcause

theorem agreesError_of_not_object (h : ∀ members, payload ≠ .object members) :
    AgreesError readers payload := by
  intro error herror name
  cases payload with
  | object members => exact absurd rfl (h members)
  | null | bool _ | number _ | string _ | array _ =>
    rw [errorFromJson] at herror
    · cases herror
    · simp

/-- A list of documents is decoded item by item, a map entry by entry. -/
theorem agrees_object {members : Members} (hunique : (object members).Unique)
    (hmembers : ∀ entry ∈ members, Agrees readers entry.2)
    (hinner : ∀ payload, ∀ entry ∈ members, entry.2 = .object payload → ∀ key,
      ∀ inner ∈ Json.inner payload key, Agrees readers inner.2)
    (herror : ∀ entry ∈ members, AgreesError readers entry.2) :
    Agrees readers (.object members) := by
  intro value hvalue name
  have hkeys : (members.map fst).Nodup := by
    cases hunique with
    | object hkeys _ => exact hkeys
  have hplainCase (hplain : isPlain members = true) {entries : MapValue}
      (h : entriesFromJson readers [] members = .ok entries) :
      Names name (.map entries) ↔ Writes name (.object members) := by
    have hiff := @names_entries readers name _ _ _ h (by simpa using hkeys) hmembers
    simp only [not_mem_nil, false_and, exists_false, false_or] at hiff
    rw [names_map, writes_plain hplain, hiff]
  rcases members with - | ⟨⟨tag, payload⟩, rest⟩
  · rw [fromJson] at hvalue
    · obtain ⟨entries, hentries, hvalue⟩ := ok_of_bind hvalue
      cases hvalue
      exact hplainCase rfl hentries
    · simp
  cases rest with
  | cons second rest =>
    rw [fromJson] at hvalue
    · obtain ⟨entries, hentries, hvalue⟩ := ok_of_bind hvalue
      cases hvalue
      exact hplainCase rfl hentries
    · simp
  | nil =>
    rw [fromJson] at hvalue
    split_ifs at hvalue with hrecord herrorTag hscalar
    · subst hrecord
      cases payload with
      | object record =>
        have hpayload : (object record).Unique := by
          cases hunique with
          | object _ h => exact h _ mem_cons_self
        exact agrees_record hpayload (hinner record _ mem_cons_self rfl) hvalue
      | null | bool _ | number _ | string _ | array _ =>
        rw [recordFromJson] at hvalue
        · cases hvalue
        · simp
    · subst herrorTag
      obtain ⟨error, herrorValue, hvalue⟩ := ok_of_bind hvalue
      cases hvalue
      rw [names_error, writes_error]
      exact herror _ mem_cons_self error herrorValue name
    · exact iff_of_false (not_names_of_isScalar (isScalar_of_scalarFromJson hvalue))
        (not_writes_scalar hscalar)
    · obtain ⟨entries, hentries, hvalue⟩ := ok_of_bind hvalue
      cases hvalue
      exact hplainCase (by simp [isPlain, hrecord, herrorTag, hscalar]) hentries

/-- What a document decodes to holds the records that it writes, as a value and as the payload of an
error. -/
theorem agrees (json : Json) (hunique : json.Unique) :
    Agrees readers json ∧ AgreesError readers json := by
  induction hsize : sizeOf json using Nat.strongRecOn generalizing json with
  | _ size ih =>
    subst hsize
    have hscalar (hnone : ∀ name, ¬ Writes name json)
        (h : ∀ value, fromJson readers json = .ok value → value.isScalar = true) :
        Agrees readers json := fun value hvalue name =>
      iff_of_false (not_names_of_isScalar (h value hvalue)) (hnone name)
    cases json with
    | null | bool _ | string _ =>
      refine ⟨hscalar (fun name hwrites => by cases hwrites) fun value hvalue => ?_,
        agreesError_of_not_object fun members => by simp⟩
      rw [fromJson] at hvalue
      cases hvalue
      rfl
    | number number =>
      refine ⟨hscalar (fun name hwrites => by cases hwrites) fun value hvalue => ?_,
        agreesError_of_not_object fun members => by simp⟩
      rw [fromJson] at hvalue
      cases hvalue
      unfold numberFromJson
      split
      · rfl
      · rfl
    | array items =>
      refine ⟨fun value hvalue name => ?_, agreesError_of_not_object fun members => by simp⟩
      rw [fromJson] at hvalue
      obtain ⟨values, hvalues, hvalue⟩ := ok_of_bind hvalue
      cases hvalue
      rw [names_list, writes_array]
      refine names_items hvalues fun item hitem => (ih _ ?_ item ?_ rfl).1
      · have hlt := sizeOf_lt_of_mem hitem
        simp only [array.sizeOf_spec]
        omega
      · cases hunique with
        | array h => exact h item hitem
    | object members =>
      have hentries : ∀ entry ∈ members, entry.2.Unique := by
        cases hunique with
        | object _ h => exact h
      have hmember (entry : String × Json) (h : entry ∈ members) :
          Agrees readers entry.2 ∧ AgreesError readers entry.2 := by
        refine ih _ ?_ entry.2 (hentries entry h) rfl
        have hlt := sizeOf_entry_lt h
        simp only [object.sizeOf_spec]
        omega
      have hbeneath {payload : Members} (hpayload : (object payload).Unique)
          (hsmall : sizeOf payload ≤ sizeOf members) (key : String) (entry : String × Json)
          (h : entry ∈ inner payload key) : Agrees readers entry.2 := by
        refine (ih _ ?_ entry.2 ((unique_inner hpayload key).2 entry h) rfl).1
        have hlt := sizeOf_entry_lt h
        have hle := sizeOf_inner_le payload key
        simp only [object.sizeOf_spec]
        omega
      have hobject {payload : Members} (hpayload : (object payload).Unique)
          (hsmall : sizeOf (object payload) ≤ sizeOf members) : ∀ key,
          ∀ entry ∈ inner payload key, Agrees readers entry.2 := by
        simp only [object.sizeOf_spec] at hsmall
        exact hbeneath hpayload (by omega)
      refine ⟨agrees_object hunique (fun entry h => (hmember entry h).1) ?_
        fun entry h => (hmember entry h).2, agreesError_object hunique
          (hbeneath hunique (Nat.le_refl _) "metadata") ?_ ?_⟩
      · intro payload entry h heq
        have hpayload := hentries entry h
        have hlt := sizeOf_entry_lt h
        rw [heq] at hpayload hlt
        exact hobject hpayload (by omega)
      · intro target htarget
        have hpayload := unique_member hunique "target"
        have hle := Json.sizeOf_member_le members "target"
        rw [htarget] at hpayload hle
        exact hobject hpayload hle "identity"
      · refine (ih _ ?_ _ (unique_member hunique "source") rfl).2
        have hle := Json.sizeOf_member_le members "source"
        simp only [Json.object.sizeOf_spec]
        omega

/-- **A decoded value holds the records its document writes**, each naming the provider that is
written. -/
theorem names_iff_writes {json : Json} (hunique : json.Unique) {value : Value}
    (h : fromJson readers json = .ok value) : Names name value ↔ Writes name json :=
  (agrees json hunique).1 value h name

end Decoding

end OnoSendai
