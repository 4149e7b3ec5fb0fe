import OnoSendai.Kuang.Occurrence

/-!
# Emissions of a plugin

A plugin emits documents into its output streams. The host sets the provider of the provenance of
each one to the package that emits it, decodes it, checks it against the type the stream was
declared with, and delivers the value. What is emitted beyond the credit of the stream is refused or
dropped, as was negotiated.

The stamp is put on one place of the document, the member `$record` at its top. Records beneath it
keep the provenance the plugin wrote.
-/

namespace OnoSendai.Kuang

open List
open Json hiding inner

/-! ### The stamp -/

/-- The provider of everything a package emits. -/
def providerOf (package : String) : String :=
  "plugin:" ++ package

/-- The provenance of a record that brings none. -/
def freshProvenance (package : String) (schema : String) : Members :=
  [("provider", .string (providerOf package)), ("observed", .null), ("source", .null),
    ("link", .string "local"), ("schema", .string schema), ("confidence", .null)]

/-- The provenance of a record, with its provider set. -/
def stampedProvenance (package : String) (record : Members) : Members :=
  match member record "provenance" with
  | .object provenance =>
    insertMember provenance "provider" (.string (providerOf package))
  | _ => freshProvenance package ((text record "schema").getD "")

/-- The members of a record with its provider set. -/
def stamped (package : String) (record : Members) : Members :=
  insertMember record "provenance" (.object (stampedProvenance package record))

/-- The document with the provider of its record set. -/
def restampProvenance (package : String) : Json → Json
  | .object members =>
    match member members "$record" with
    | .object record => .object (insertMember members "$record" (.object (stamped package record)))
    | _ => .object members
  | json => json

/-! ### The type of a stream -/

/-- What a stream may carry. -/
inductive Expected
  | schema (id : SchemaId)
  | type (type : FieldType)
  | any

/-- The failure of a value that is not what a stream carries. -/
def violation (message : String) : ErrorValue where
  code := .other "runtime.schema_violation"
  message := message

/-- Whether a value violates what a stream was declared with. -/
def schemaViolation : Expected → Value → Option ErrorValue
  | .any, _ => none
  | .type type, value =>
    if type.accepts value then none
    else some (violation ("the contribution declares `" ++ type.name ++ "` and the value is `" ++
      value.typeName ++ "`"))
  | .schema id, .record schema _ _ _ =>
    if schema.id = id then none
    else some (violation ("the contribution declares schema `" ++ id.text ++
      "` and the value carries `" ++ schema.id.text ++ "`"))
  | .schema id, other =>
    some (violation ("the contribution declares schema `" ++ id.text ++ "` and the value is a bare `" ++
      other.typeName ++ "`"))

/-! ### Emissions -/

/-- What the host makes of one emitted document. -/
def emitted (package : String) (readers : Readers) (expected : Expected) (json : Json) :
    Except ErrorValue Value :=
  match fromJson readers (restampProvenance package json) with
  | .ok value =>
    match schemaViolation expected value with
    | none => .ok value
    | some violation => .error violation
  | .error error =>
    .error (violation ("an emitted value could not be decoded: " ++ error.message))

/-- What becomes of what is emitted beyond the credit of a stream. -/
inductive OverflowPolicy
  | blockUpstream
  | dropOldest
  | dropNewest
  | coalesce
  | failStream
deriving DecidableEq

/-- An output stream of an instance. -/
structure OutStream where
  credit : Nat
  cancelled : Bool
  expected : Expected

/-- What is sent along a stream. -/
inductive StreamEvent
  | value (value : Value)
  | failed (error : ErrorValue)

/-- The identity that repeated updates are combined by. `render` is the debug text of an object. -/
def coalescingIdentity (render : Members → String) : Json → Option String
  | .object members =>
    match text members "schema", member members "identity" with
    | some schema, .object identity => some (schema ++ ":" ++ render identity)
    | _, _ => none
  | _ => none

/-- The documents without those a later one of the same identity replaces. -/
def coalesceByIdentity (render : Members → String) : List Json → List Json
  | [] => []
  | json :: rest =>
    if (coalescingIdentity render json).any fun identity =>
        rest.any (coalescingIdentity render · = some identity) then
      coalesceByIdentity render rest
    else
      json :: coalesceByIdentity render rest

/-- The failure of a plugin that breaks the negotiated protocol. -/
def protocolViolation (detail : String) : ErrorValue where
  code := .other "runtime.protocol_violation"
  message := "the plugin violated the negotiated protocol: " ++ detail

/-- The failure of a stream that loses no data. -/
def backpressureFailure (count credit : Nat) : ErrorValue where
  code := .other "runtime.backpressure_failure"
  message := "the stream emitted " ++ toString count ++ " values against a credit of " ++
    toString credit ++ ", and its overflow policy is `fail-stream`"

/-- The documents that fit into the credit of a stream, none where the stream fails instead. -/
def fitting (policy : OverflowPolicy) (render : Members → String) (credit : Nat)
    (values : List Json) : Except ErrorValue (Option (List Json)) :=
  if values.length ≤ credit then .ok (some values)
  else
    match policy with
    | .blockUpstream =>
      .error (protocolViolation ("an emission of " ++ toString values.length ++
        " values against a credit of " ++ toString credit))
    | .failStream => .ok none
    | .dropNewest => .ok (some (values.take credit))
    | .dropOldest => .ok (some (values.drop (values.length - credit)))
    | .coalesce =>
      let combined := coalesceByIdentity render values
      .ok (some (combined.drop (combined.length - credit)))

/-- Delivers documents until one cannot be. -/
def deliver (package : String) (readers : Readers) (expected : Expected) :
    List Json → List Value × Option ErrorValue
  | [] => ([], none)
  | json :: rest =>
    match emitted package readers expected json with
    | .ok value =>
      let delivered := deliver package readers expected rest
      (value :: delivered.1, delivered.2)
    | .error error => ([], some error)

/-- What an emission comes to: what is sent along the stream, the stream afterwards, none where it
is closed, and the answer, which is the credit that is left. -/
structure Emission where
  events : List StreamEvent
  stream : Option OutStream
  reply : Except ErrorValue Nat

/-- An emission that closes the stream. -/
def Emission.failing (delivered : List Value) (error : ErrorValue) : Emission where
  events := delivered.map .value ++ [.failed error]
  stream := none
  reply := .error error

/-- Answers an emission into an open stream. A violation of the protocol is an error of the call. -/
def hostEmit (package : String) (readers : Readers) (policy : OverflowPolicy)
    (render : Members → String) (stream : OutStream) (values : List Json) :
    Except ErrorValue Emission :=
  if 2 ^ 32 ≤ values.length then
    .error (protocolViolation "an emission too large to count")
  else do
    match ← fitting policy render stream.credit values with
    | none => return .failing [] (backpressureFailure values.length stream.credit)
    | some values =>
      let left := { stream with credit := stream.credit - values.length }
      if stream.cancelled then
        return ⟨[], some left, .ok 0⟩
      else
        let delivered := deliver package readers stream.expected values
        match delivered.2 with
        | some error => return .failing delivered.1 error
        | none => return ⟨delivered.1.map .value, some left, .ok left.credit⟩

/-! ### What is delivered -/

variable {value : Value}

section Delivered

variable {package : String} {readers : Readers} {expected : Expected}

/-- A value that is delivered was emitted. -/
theorem exists_of_mem_deliver {values : List Json}
    (h : value ∈ (deliver package readers expected values).1) :
    ∃ json ∈ values, emitted package readers expected json = .ok value := by
  induction values with
  | nil => cases h
  | cons json rest ih =>
    unfold deliver at h
    cases hemitted : emitted package readers expected json with
    | error error => simp [hemitted] at h
    | ok first =>
      simp only [hemitted, mem_cons] at h
      rcases h with rfl | h
      · exact ⟨json, mem_cons_self, hemitted⟩
      · obtain ⟨found, hfound, hvalue⟩ := ih h
        exact ⟨found, mem_cons_of_mem _ hfound, hvalue⟩

theorem coalesceByIdentity_subset (render : Members → String) (values : List Json) :
    coalesceByIdentity render values ⊆ values := by
  induction values with
  | nil => exact Subset.refl _
  | cons json rest ih =>
    unfold coalesceByIdentity
    split_ifs
    · exact fun found h => mem_cons_of_mem _ (ih h)
    · exact cons_subset_cons _ ih

variable {render : Members → String}

/-- What fits into the credit is some of what was emitted. -/
theorem fitting_subset {policy : OverflowPolicy} {credit : Nat} {values kept : List Json}
    (h : fitting policy render credit values = .ok (some kept)) : kept ⊆ values := by
  unfold fitting at h
  split_ifs at h with hcredit
  · cases h
    exact Subset.refl _
  · cases policy with
    | blockUpstream | failStream => cases h
    | dropNewest =>
      cases h
      exact take_subset _ _
    | dropOldest =>
      cases h
      exact drop_subset _ _
    | coalesce =>
      cases h
      exact fun found hfound =>
        coalesceByIdentity_subset render values (drop_subset _ _ hfound)

/-- **What an emission delivers** is what the host makes of emitted documents. -/
theorem exists_of_mem_events {policy : OverflowPolicy} {stream : OutStream} {values : List Json}
    {emission : Emission} (h : hostEmit package readers policy render stream values = .ok emission)
    (hvalue : .value value ∈ emission.events) :
    ∃ json ∈ values, emitted package readers stream.expected json = .ok value := by
  unfold hostEmit at h
  by_cases hlarge : 2 ^ 32 ≤ values.length
  · rw [if_pos hlarge] at h
    cases h
  rw [if_neg hlarge] at h
  obtain ⟨kept, hkept, h⟩ := ok_of_bind h
  cases kept with
  | none =>
    cases h
    simp [Emission.failing] at hvalue
  | some kept =>
    have hdelivered (h : value ∈ (deliver package readers stream.expected kept).1) :
        ∃ json ∈ values, emitted package readers stream.expected json = .ok value := by
      obtain ⟨json, hjson, hemitted⟩ := exists_of_mem_deliver h
      exact ⟨json, fitting_subset hkept hjson, hemitted⟩
    dsimp only at h
    split_ifs at h
    · cases h
      cases hvalue
    · split at h
      · cases h
        simp only [Emission.failing, mem_append, mem_map, mem_singleton,
          StreamEvent.value.injEq, exists_eq_right, reduceCtorEq, or_false] at hvalue
        exact hdelivered hvalue
      · cases h
        simp only [mem_map, StreamEvent.value.injEq, exists_eq_right] at hvalue
        exact hdelivered hvalue

end Delivered

/-! ### What is nested -/

/-- The document writes, beneath its top, a record that names a provider. At the top of the document
stands a record, whose provider the host sets, or a map with a member `$record`, into which the host
puts a provenance all the same. -/
def WritesBeneath (name : String) : Json → Prop
  | .object members =>
    match member members "$record" with
    | .object record =>
      if members.length = 1 then
        (∃ entry ∈ Json.inner record "fields", Writes name entry.2) ∨
          ∃ entry ∈ Json.inner record "extra", Writes name entry.2
      else
        (∃ entry ∈ members, entry.1 ≠ "$record" ∧ Writes name entry.2) ∨
          (∃ entry ∈ record, entry.1 ≠ "provenance" ∧ Writes name entry.2) ∨
          ∃ entry ∈ Json.inner record "provenance",
            entry.1 ≠ "provider" ∧ Writes name entry.2
    | _ => Writes name (.object members)
  | json => Writes name json

/-- Every record in a value names the package that emitted it. -/
def Unforged (package : String) (value : Value) : Prop :=
  ∀ record, Occurs record value → record.provenance.provider = providerOf package

section Nested

variable {name package : String}

variable {json : Json} {members : Members} {key : String}

theorem isPlain_of_mem (h : (key, json) ∈ members)
    (hkey : key ≠ "$record" ∧ key ≠ "$error" ∧ key ∉ scalarTags) : isPlain members = true := by
  rcases members with - | ⟨⟨tag, payload⟩, - | ⟨second, rest⟩⟩
  · rfl
  · obtain ⟨rfl, rfl⟩ : key = tag ∧ json = payload := by simpa using h
    simp [isPlain, hkey]
  · rfl

theorem not_writes_freshProvenance (package schema : String) :
    ¬ Writes name (.object (freshProvenance package schema)) := by
  rw [writes_plain rfl]
  rintro ⟨entry, hentry, hwrites⟩
  simp only [freshProvenance, mem_cons, not_mem_nil, or_false] at hentry
  rcases hentry with rfl | rfl | rfl | rfl | rfl | rfl <;> cases hwrites

variable {record : Members}

/-- A stamped provenance writes what the plugin put beside the provider. -/
theorem writes_stampedProvenance (hunique : (object record).Unique) :
    Writes name (.object (stampedProvenance package record)) ↔
      ∃ entry ∈ Json.inner record "provenance", entry.1 ≠ "provider" ∧ Writes name entry.2 := by
  have hkeys := (unique_inner hunique "provenance").1
  unfold stampedProvenance
  cases hprovenance : member record "provenance" with
  | object provenance =>
    rw [inner_of_object hprovenance] at hkeys ⊢
    have hprovider : ("provider", string (providerOf package)) ∈
        insertMember provenance "provider" (.string (providerOf package)) :=
      (mem_insertMember hkeys).mpr (.inl rfl)
    rw [writes_plain (isPlain_of_mem hprovider (by decide))]
    constructor
    · rintro ⟨entry, hentry, hwrites⟩
      rcases (mem_insertMember hkeys).mp hentry with rfl | ⟨hfound, hne⟩
      · cases hwrites
      · exact ⟨entry, hfound, hne, hwrites⟩
    · rintro ⟨entry, hentry, hne, hwrites⟩
      exact ⟨entry, (mem_insertMember hkeys).mpr (.inr ⟨hentry, hne⟩), hwrites⟩
  | null | bool _ | number _ | string _ | array _ =>
    refine iff_of_false (not_writes_freshProvenance _ _) ?_
    rintro ⟨entry, hentry, -⟩
    simp [Json.inner, hprovenance, Json.asObject] at hentry

theorem providerFromJson_stamped (record : Members) :
    providerFromJson (member (stamped package record) "provenance") = providerOf package := by
  rw [stamped, member_insertMember, if_pos rfl]
  unfold stampedProvenance
  cases member record "provenance" with
  | object provenance =>
    simp only [providerFromJson, text, member_insertMember, if_true, asStr,
      Option.getD_some]
  | null | bool _ | number _ | string _ | array _ => rfl

theorem inner_stamped (h : key ≠ "provenance") :
    Json.inner (stamped package record) key = Json.inner record key := by
  rw [Json.inner, stamped, Json.member_insertMember, if_neg h, Json.inner]

/-- What the members of a stamped record write, where they are decoded as a map. -/
theorem writes_stamped (hunique : (object record).Unique) :
    Writes name (.object (stamped package record)) ↔
      (∃ entry ∈ record, entry.1 ≠ "provenance" ∧ Writes name entry.2) ∨
        ∃ entry ∈ Json.inner record "provenance", entry.1 ≠ "provider" ∧ Writes name entry.2 := by
  have hkeys : (record.map Prod.fst).Nodup := by
    cases hunique with
    | object hkeys _ => exact hkeys
  have hprovenance : ("provenance", object (stampedProvenance package record)) ∈
      stamped package record := (mem_insertMember hkeys).mpr (.inl rfl)
  rw [writes_plain (isPlain_of_mem hprovenance (by decide)), ← writes_stampedProvenance hunique]
  constructor
  · rintro ⟨entry, hentry, hwrites⟩
    rcases (mem_insertMember hkeys).mp hentry with rfl | ⟨hfound, hne⟩
    · exact .inr hwrites
    · exact .inl ⟨entry, hfound, hne, hwrites⟩
  · rintro (⟨entry, hentry, hne, hwrites⟩ | hwrites)
    · exact ⟨entry, (mem_insertMember hkeys).mpr (.inr ⟨hentry, hne⟩), hwrites⟩
    · exact ⟨_, hprovenance, hwrites⟩

theorem isPlain_of_length (h : members.length ≠ 1) : isPlain members = true := by
  rcases members with - | ⟨first, - | ⟨second, rest⟩⟩
  · rfl
  · exact absurd rfl h
  · rfl

/-- **What the stamped document writes.** Where the document is a record, its top names the package;
everything else is written beneath. -/
theorem writes_restampProvenance (hunique : json.Unique) :
    Writes name (restampProvenance package json) ↔
      ((∃ record, json = .object [("$record", .object record)]) ∧ providerOf package = name) ∨
        WritesBeneath name json := by
  cases json with
  | null | bool _ | number _ | string _ | array _ => simp [restampProvenance, WritesBeneath]
  | object members =>
    have hkeys : (members.map Prod.fst).Nodup := by
      cases hunique with
      | object hkeys _ => exact hkeys
    cases hmember : member members "$record" with
    | null | bool _ | number _ | string _ | array _ =>
      have hnone : ¬ ∃ record, object members = .object [("$record", .object record)] := by
        rintro ⟨record, heq⟩
        cases heq
        simp [member] at hmember
      simp only [restampProvenance, WritesBeneath, hmember, hnone, false_and, false_or]
    | object record =>
      have hrecord : (object record).Unique := hmember ▸ unique_member hunique "$record"
      have hmem := mem_of_member_object hmember
      simp only [restampProvenance, WritesBeneath, hmember]
      by_cases hlength : members.length = 1
      · obtain ⟨entry, rfl⟩ := length_eq_one_iff.mp hlength
        obtain rfl := mem_singleton.mp hmem
        have htop : ∃ found, object [("$record", object record)] =
            .object [("$record", .object found)] := ⟨record, rfl⟩
        have hinsert : insertMember [("$record", object record)] "$record"
            (.object (stamped package record)) =
            [("$record", .object (stamped package record))] := rfl
        rw [hinsert, writes_record, providerFromJson_stamped, inner_stamped (by decide),
          inner_stamped (by decide), if_pos hlength]
        simp only [htop, true_and]
      · have hplain : isPlain (insertMember members "$record"
            (.object (stamped package record))) = true := by
          refine isPlain_of_length ?_
          rwa [length_insertMember (mem_map.mpr ⟨_, hmem, rfl⟩)]
        have hnone : ¬ ∃ found, object members = .object [("$record", .object found)] := by
          rintro ⟨found, heq⟩
          cases heq
          exact hlength rfl
        rw [writes_plain hplain, if_neg hlength, ← @writes_stamped name package _ hrecord]
        simp only [hnone, false_and, false_or]
        constructor
        · rintro ⟨entry, hentry, hwrites⟩
          rcases (mem_insertMember hkeys).mp hentry with rfl | ⟨hfound, hne⟩
          · exact .inr hwrites
          · exact .inl ⟨entry, hfound, hne, hwrites⟩
        · rintro (⟨entry, hentry, hne, hwrites⟩ | hwrites)
          · exact ⟨entry, (mem_insertMember hkeys).mpr (.inr ⟨hentry, hne⟩), hwrites⟩
          · exact ⟨_, (mem_insertMember hkeys).mpr (.inl rfl), hwrites⟩

theorem unique_insertMember (hunique : (object members).Unique) (hjson : json.Unique) :
    (object (insertMember members key json)).Unique := by
  cases hunique with
  | object hkeys h =>
    refine .object (nodup_insertMember hkeys) fun entry hentry => ?_
    rcases (mem_insertMember hkeys).mp hentry with rfl | ⟨hfound, -⟩
    · exact hjson
    · exact h entry hfound

/-- The stamp keeps the keys of every object distinct. -/
theorem unique_restampProvenance (hunique : json.Unique) :
    (restampProvenance package json).Unique := by
  unfold restampProvenance
  cases json with
  | null | bool _ | number _ | string _ | array _ => exact hunique
  | object members =>
    cases hmember : member members "$record" with
    | null | bool _ | number _ | string _ | array _ =>
      simp only [hmember]
      exact hunique
    | object record =>
      have hrecord : (object record).Unique := hmember ▸ unique_member hunique "$record"
      simp only [hmember]
      refine unique_insertMember hunique (unique_insertMember hrecord ?_)
      unfold stampedProvenance
      cases hprovenance : member record "provenance" with
      | object provenance =>
        have hold : (object provenance).Unique :=
          hprovenance ▸ unique_member hrecord "provenance"
        exact unique_insertMember hold (.string _)
      | null | bool _ | number _ | string _ | array _ =>
        refine .object (by simp [freshProvenance]) fun entry hentry => ?_
        simp only [freshProvenance, mem_cons, not_mem_nil, or_false] at hentry
        rcases hentry with rfl | rfl | rfl | rfl | rfl | rfl
        · exact .string _
        · exact .null
        · exact .null
        · exact .string _
        · exact .string _
        · exact .null

theorem unforged_iff_names :
    Unforged package value ↔ ∀ name, Names name value → name = providerOf package := by
  constructor
  · rintro h name ⟨record, hoccurs, rfl⟩
    exact h record hoccurs
  · intro h record hoccurs
    exact h _ ⟨record, hoccurs, rfl⟩

end Nested

/-- **Delivered values are unforged exactly when what is nested in them is.** A package delivers
what the host makes of documents it emits, and every record in a delivered value names the package
if and only if every record that is nested in the document already does. -/
theorem unforged_iff (package : String) (readers : Readers) :
    (∀ (policy : OverflowPolicy) (render : Members → String) (stream : OutStream)
      (values : List Json) (emission : Emission),
      hostEmit package readers policy render stream values = .ok emission →
      ∀ value, .value value ∈ emission.events →
        ∃ json ∈ values, emitted package readers stream.expected json = .ok value) ∧
    ∀ (expected : Expected) (json : Json) (value : Value), json.Unique →
      emitted package readers expected json = .ok value →
      (Unforged package value ↔ ∀ name, WritesBeneath name json → name = providerOf package) := by
  refine ⟨fun _ _ _ _ _ h _ hvalue => exists_of_mem_events h hvalue, ?_⟩
  intro expected json value hunique hemitted
  have hdecoded : fromJson readers (restampProvenance package json) = .ok value := by
    unfold emitted at hemitted
    split at hemitted
    · split at hemitted
      · cases hemitted
        assumption
      · cases hemitted
    · cases hemitted
  have hnames (name : String) : Names name value ↔
      ((∃ record, json = .object [("$record", .object record)]) ∧ providerOf package = name) ∨
        WritesBeneath name json :=
    (names_iff_writes (unique_restampProvenance hunique) hdecoded).trans
      (writes_restampProvenance hunique)
  rw [unforged_iff_names]
  constructor
  · intro h name hwrites
    exact h name ((hnames name).mpr (.inr hwrites))
  · intro h name hname
    rcases (hnames name).mp hname with ⟨-, rfl⟩ | hwrites
    · rfl
    · exact h name hwrites

/-! ### A forged record -/

/-- A reader that knows one schema and reads no scalar. -/
def userReaders : Readers where
  decimal _ := .error (badTag "$decimal")
  timestamp _ := none
  duration _ := .error (badTag "$duration")
  regex _ := .error (badTag "$regex")
  uuid _ := .error (badTag "$uuid")
  ip _ := none
  ipNetwork _ := .error (badTag "$ipnetwork")
  nearest _ := 0
  errorCode _ := none
  schema id := if id = ⟨"ono.user", 1⟩ then some ⟨⟨"ono.user", 1⟩, ["uid"]⟩ else none

/-- A user, as a provider writes one. -/
def userJson (provider : String) : Json :=
  .object [("$record", .object [("schema", .string "ono.user/1"),
    ("fields", .object [("uid", .number (.posInt 0))]),
    ("provenance", .object [("provider", .string provider)])])]

/-- A user, as it is delivered. -/
def userRecord (provider : String) : RecordValue where
  schema := ⟨⟨"ono.user", 1⟩, ["uid"]⟩
  fields := [.int 0]
  extra := []
  provenance := ⟨provider, none, none, .onThisHost, ⟨"ono.user", 1⟩, none, none⟩

/-- What a user is decoded to. -/
theorem fromJson_userJson (provider : String) :
    fromJson userReaders (userJson provider) = .ok (userRecord provider).intoValue := by
  have hopen : openRecord userReaders [("schema", .string "ono.user/1"),
      ("fields", .object [("uid", .number (.posInt 0))]),
      ("provenance", .object [("provider", .string provider)])] =
      .ok (.builder ⟨⟨"ono.user", 1⟩, ["uid"]⟩ (userRecord provider).provenance) := rfl
  have hfields : fieldsFromJson userReaders
      (.builder ⟨⟨"ono.user", 1⟩, ["uid"]⟩ (userRecord provider).provenance)
      [("uid", .number (.posInt 0))] = .ok (userRecord provider) := by
    rw [fieldsFromJson, fromJson]
    exact fieldsFromJson.eq_1 ..
  have hextra : entriesFromJson userReaders [] [] = .ok [] := entriesFromJson.eq_1 ..
  rw [userJson, fromJson, if_pos rfl, recordFromJson, hopen]
  change (fieldsFromJson userReaders _ [("uid", .number (.posInt 0))] >>= fun record =>
    entriesFromJson userReaders record.extra [] >>= fun extra =>
      pure { record with extra := extra }.intoValue) = _
  rw [hfields]
  change (entriesFromJson userReaders [] [] >>= fun extra =>
    pure { userRecord provider with extra := extra }.intoValue) = _
  rw [hextra]
  rfl

/-- A list with a user. -/
def userList (provider : String) : Json :=
  .array [userJson provider]

theorem emitted_userList (package provider : String) :
    emitted package userReaders .any (userList provider) =
      .ok (.list [(userRecord provider).intoValue]) := by
  have hitems : itemsFromJson userReaders [userJson provider] =
      .ok [(userRecord provider).intoValue] := by
    rw [itemsFromJson, fromJson_userJson, itemsFromJson]
    rfl
  have hlist : fromJson userReaders (restampProvenance package (userList provider)) =
      .ok (.list [(userRecord provider).intoValue]) := by
    rw [restampProvenance, userList, fromJson, hitems]
    · rfl
    · simp [userList]
  rw [emitted, hlist]
  rfl

/-- The keys of the list are distinct. -/
theorem unique_userList (provider : String) : (userList provider).Unique := by
  simp only [userList, userJson]
  refine .array fun item hitem => ?_
  obtain rfl := mem_singleton.mp hitem
  refine .object (by simp) fun entry hentry => ?_
  obtain rfl := mem_singleton.mp hentry
  refine .object (by simp) fun entry hentry => ?_
  simp only [mem_cons, not_mem_nil, or_false] at hentry
  rcases hentry with rfl | rfl | rfl
  · exact .string _
  · refine .object (by simp) fun entry hentry => ?_
    obtain rfl := mem_singleton.mp hentry
    exact .number _
  · refine .object (by simp) fun entry hentry => ?_
    obtain rfl := mem_singleton.mp hentry
    exact .string _

theorem unforged_iff_userList :
    Unforged "acme.users" (.list [(userRecord "plugin:acme.users").intoValue]) := by
  refine ((unforged_iff "acme.users" userReaders).2 .any (userList "plugin:acme.users") _
    (unique_userList _) (emitted_userList _ _)).mpr fun name hwrites => ?_
  obtain ⟨item, hitem, hitemWrites⟩ := writes_array.mp hwrites
  rw [mem_singleton.mp hitem, userJson] at hitemWrites
  rcases writes_record.mp hitemWrites with hname | ⟨entry, hentry, hentryWrites⟩ |
    ⟨entry, hentry, hentryWrites⟩
  · exact hname.symm
  · simp only [Json.inner, Json.member, List.lookup_cons, List.lookup_nil] at hentry
    obtain rfl := List.mem_singleton.mp hentry
    cases hentryWrites
  · simp only [Json.inner, Json.member, List.lookup_cons, List.lookup_nil] at hentry
    cases hentry

/-- A user that claims, inside a list, to come from another provider is delivered with that
claim. -/
theorem not_unforged_userList :
    emitted "acme.users" userReaders .any (userList "linux.procfs") =
        .ok (.list [(userRecord "linux.procfs").intoValue]) ∧
      ¬ Unforged "acme.users" (.list [(userRecord "linux.procfs").intoValue]) := by
  refine ⟨emitted_userList _ _, fun h => ?_⟩
  exact absurd (h _ (.item (mem_singleton.mpr rfl) (.here rfl))) (by decide +kernel)

end OnoSendai.Kuang
