import Mathlib.Data.List.AList
import OnoSendai.Value.Equality

/-!
# Watching a table

A watch of interfaces, routes or neighbours waits for the kernel to announce a change, reads the
whole table again and reports what differs from the table it read before
(`subscribe_table` of `ono_provider_netlink::provider`). Records are compared with their provenance,
which states the instant of the observation, and a table that was read in part replaces the one
that was known.
-/

namespace OnoSendai.Netlink

open List hiding keys map_map

/-! ### Events -/

/-- What happened to an object. -/
inductive EventKind
  | snapshot
  | added
  | changed
  | removed
deriving DecidableEq

/-- One change to one object. -/
structure ObjectEvent where
  kind : EventKind
  objectId : Option String
  value : RecordValue
  changedFields : Option (List String)
  observedAt : ℤ

/-- The objects a decoder read, and the problems it met. -/
structure Decoded where
  records : List RecordValue
  errors : List ErrorValue

section Watch

variable (powi : ℕ → UInt64) (keep : RecordValue → Bool) (identify : RecordValue → Option String)

/-- Records by identity, each under its own. -/
structure Table where
  rows : AList fun _ : String => RecordValue
  named : ∀ id record, rows.lookup id = some record → identify record = some id

/-- The table of no records. -/
def Table.empty : Table identify where
  rows := ∅
  named := by simp

variable {identify}

/-- A table with a record, in place of the one that had its identity. -/
def Table.insert (table : Table identify) (id : String) (record : RecordValue)
    (h : identify record = some id) : Table identify where
  rows := table.rows.insert id record
  named := by
    intro other found hfound
    by_cases hsame : other = id
    · subst hsame
      rw [AList.lookup_insert] at hfound
      rwa [← Option.some.inj hfound]
    · rw [AList.lookup_insert_ne hsame] at hfound
      exact table.named other found hfound

variable (identify)

/-- The decoded records the query keeps, by identity. -/
def table (decoded : Decoded) : Table identify :=
  (decoded.records.filter keep).foldl
    (fun rows record =>
      match h : identify record with
      | some id => rows.insert id record h
      | none => rows)
    (.empty identify)

/-- Whether two records have the same fields and extras, whoever observed them. -/
def sameContent (one other : RecordValue) : Bool :=
  one.schema = other.schema && Value.eqLists powi one.fields other.fields &&
    Value.eqMaps powi one.extra other.extra

/-- Equality of records. -/
def sameRecord (one other : RecordValue) : Bool :=
  Value.eq powi (.record one.schema one.fields one.extra one.provenance)
    (.record other.schema other.fields other.extra other.provenance)

/-- The fields whose values moved between two observations of one object. -/
def moved (previous current : RecordValue) : List String :=
  current.schema.fields.filter fun name =>
    match previous.get name, current.get name with
    | some one, some other => !Value.eq powi one other
    | none, none => false
    | _, _ => true

/-- An event about a record, dated by the announcement of the change. -/
def eventOf (kind : EventKind) (record : RecordValue) (fields : Option (List String))
    (announcedAt : ℤ) : ObjectEvent where
  kind := kind
  objectId := identify record
  value := record
  changedFields := fields
  observedAt := announcedAt

/-- What is reported of a record that was read. -/
def arrival (known : Table identify) (announcedAt : ℤ) (id : String) (record : RecordValue) :
    Option ObjectEvent :=
  match known.rows.lookup id with
  | none => some (eventOf identify .added record none announcedAt)
  | some previous =>
    if sameRecord powi previous record then none
    else some (eventOf identify .changed record (some (moved powi previous record)) announcedAt)

/-- What is reported of a record that was known. -/
def departure (seen : Table identify) (announcedAt : ℤ) (id : String) (record : RecordValue) :
    Option ObjectEvent :=
  if (seen.rows.lookup id).isSome then none
  else some (eventOf identify .removed record none announcedAt)

/-- The events of one announcement that was answered by a read. -/
def wake (known : Table identify) (announcedAt : ℤ) (fresh : Decoded) : List ObjectEvent :=
  let seen := table keep identify fresh
  (seen.rows.entries.filterMap fun row => arrival powi identify known announcedAt row.1 row.2) ++
    known.rows.entries.filterMap fun row => departure identify seen announcedAt row.1 row.2

/-- The events of a sequence of announcements, and the table that is known after it. A read that
fails is passed over. -/
def watch (known : Table identify) : List (ℤ × Option Decoded) → List ObjectEvent × Table identify
  | [] => ([], known)
  | (_, none) :: reads => watch known reads
  | (announcedAt, some fresh) :: reads =>
    let (events, last) := watch (table keep identify fresh) reads
    (wake powi keep identify known announcedAt fresh ++ events, last)

/-! ### What is asked of the events -/

/-- The events of one announcement are the difference of two tables, where what was not read
because of an error is not gone. -/
structure Exact (known : Table identify) (fresh : Decoded) (events : List ObjectEvent) :
    Prop where
  added_iff : ∀ id, (∃ event ∈ events, event.kind = .added ∧ event.objectId = some id) ↔
    known.rows.lookup id = none ∧ ((table keep identify fresh).rows.lookup id).isSome
  removed_iff : ∀ id, (∃ event ∈ events, event.kind = .removed ∧ event.objectId = some id) ↔
    (known.rows.lookup id).isSome ∧ (table keep identify fresh).rows.lookup id = none ∧
      fresh.errors = []
  changed_iff : ∀ id, (∃ event ∈ events, event.kind = .changed ∧ event.objectId = some id) ↔
    ∃ previous record, known.rows.lookup id = some previous ∧
      (table keep identify fresh).rows.lookup id = some record ∧
      sameContent powi previous record = false
  nodup : (events.map (·.objectId)).Nodup

/-- A table after an event. -/
def ObjectEvent.apply (rows : AList fun _ : String => RecordValue) (event : ObjectEvent) :
    AList fun _ : String => RecordValue :=
  match event.objectId with
  | none => rows
  | some id =>
    match event.kind with
    | .removed => rows.erase id
    | _ => rows.insert id event.value

/-- Two tables have the same identities, with records that are equal step by step. -/
def Agrees (rows others : AList fun _ : String => RecordValue) : Prop :=
  ∀ id, Option.Rel (Relation.ReflTransGen fun one other => sameRecord powi one other = true)
    (rows.lookup id) (others.lookup id)

/-- At every announcement the events are the difference. -/
def AllExact (known : Table identify) : List (ℤ × Option Decoded) → Prop
  | [] => True
  | (_, none) :: reads => AllExact known reads
  | (announcedAt, some fresh) :: reads =>
    Exact powi keep identify known fresh (wake powi keep identify known announcedAt fresh) ∧
      AllExact (table keep identify fresh) reads

/-- The events of a watch are the difference of two tables at every announcement, and lead from
the first table to the last. -/
def Tracks (first : Table identify) (reads : List (ℤ × Option Decoded)) : Prop :=
  AllExact powi keep identify first reads ∧
    Agrees powi ((watch powi keep identify first reads).1.foldl ObjectEvent.apply first.rows)
      (watch powi keep identify first reads).2.rows

/-- One read is reported faithfully: nothing that was known is missing beside an error, and what
has the same content was observed alike. -/
def StableRead (known : Table identify) (fresh : Decoded) : Prop :=
  (fresh.errors = [] ∨ ∀ id, (known.rows.lookup id).isSome →
    ((table keep identify fresh).rows.lookup id).isSome) ∧
  ∀ id previous record, known.rows.lookup id = some previous →
    (table keep identify fresh).rows.lookup id = some record →
    sameContent powi previous record = true → previous.provenance.eq record.provenance = true

/-- Every read is reported faithfully, beside the one before it that did not fail. -/
def Steady (known : Table identify) : List (ℤ × Option Decoded) → Prop
  | [] => True
  | (_, none) :: reads => Steady known reads
  | (_, some fresh) :: reads =>
    StableRead powi keep identify known fresh ∧ Steady (table keep identify fresh) reads

/-! ### The events of one announcement -/

variable {powi keep identify}
variable {known seen : Table identify} {fresh : Decoded} {announcedAt : ℤ} {id : String}
  {record : RecordValue} {event : ObjectEvent}

theorem sameRecord_eq (one other : RecordValue) :
    sameRecord powi one other =
      (sameContent powi one other && one.provenance.eq other.provenance) := by
  simp [sameRecord, sameContent, Value.eq, Value.eqMaps, Bool.and_assoc]

theorem arrival_eq_some_iff :
    arrival powi identify known announcedAt id record = some event ↔
      (known.rows.lookup id = none ∧ event = eventOf identify .added record none announcedAt) ∨
      ∃ previous, known.rows.lookup id = some previous ∧
        sameRecord powi previous record = false ∧
        event = eventOf identify .changed record (some (moved powi previous record))
          announcedAt := by
  unfold arrival
  cases known.rows.lookup id with
  | none => simpa using eq_comm
  | some previous =>
    cases hsame : sameRecord powi previous record with
    | true => simp [hsame]
    | false => simpa [hsame] using eq_comm

theorem departure_eq_some_iff :
    departure identify seen announcedAt id record = some event ↔
      seen.rows.lookup id = none ∧ event = eventOf identify .removed record none announcedAt := by
  unfold departure
  cases seen.rows.lookup id with
  | none => simpa using eq_comm
  | some _ => simp

theorem mem_wake_iff :
    event ∈ wake powi keep identify known announcedAt fresh ↔
      (∃ id record, (table keep identify fresh).rows.lookup id = some record ∧
        arrival powi identify known announcedAt id record = some event) ∨
      ∃ id record, known.rows.lookup id = some record ∧
        departure identify (table keep identify fresh) announcedAt id record = some event := by
  simp only [wake, mem_append, mem_filterMap, Sigma.exists]
  simp only [← AList.mem_lookup_iff, Option.mem_def]

/-- What is new is added. -/
theorem added_wake_iff :
    (∃ event ∈ wake powi keep identify known announcedAt fresh,
        event.kind = .added ∧ event.objectId = some id) ↔
      known.rows.lookup id = none ∧ ((table keep identify fresh).rows.lookup id).isSome := by
  simp only [mem_wake_iff, arrival_eq_some_iff, departure_eq_some_iff]
  constructor
  · rintro ⟨event, ⟨other, record, hseen, ⟨hnew, rfl⟩ | ⟨_, _, _, rfl⟩⟩ | ⟨_, _, _, _, rfl⟩,
      hkind, hid⟩
    · have hother : some other = some id :=
        ((table keep identify fresh).named _ _ hseen).symm.trans hid
      cases hother
      exact ⟨hnew, by simp [hseen]⟩
    · cases hkind
    · cases hkind
  · rintro ⟨hnew, hseen⟩
    obtain ⟨record, hseen⟩ := Option.isSome_iff_exists.1 hseen
    exact ⟨_, .inl ⟨id, record, hseen, .inl ⟨hnew, rfl⟩⟩, rfl,
      (table keep identify fresh).named _ _ hseen⟩

/-- What is missing is removed. -/
theorem removed_wake_iff :
    (∃ event ∈ wake powi keep identify known announcedAt fresh,
        event.kind = .removed ∧ event.objectId = some id) ↔
      (known.rows.lookup id).isSome ∧ (table keep identify fresh).rows.lookup id = none := by
  simp only [mem_wake_iff, arrival_eq_some_iff, departure_eq_some_iff]
  constructor
  · rintro ⟨event, ⟨_, _, _, ⟨_, rfl⟩ | ⟨_, _, _, rfl⟩⟩ | ⟨other, record, hknown, hgone, rfl⟩,
      hkind, hid⟩
    · cases hkind
    · cases hkind
    · have hother : some other = some id := (known.named _ _ hknown).symm.trans hid
      cases hother
      exact ⟨by simp [hknown], hgone⟩
  · rintro ⟨hknown, hgone⟩
    obtain ⟨record, hknown⟩ := Option.isSome_iff_exists.1 hknown
    exact ⟨_, .inr ⟨id, record, hknown, hgone, rfl⟩, rfl, known.named _ _ hknown⟩

/-- What is not equal is changed. -/
theorem changed_wake_iff :
    (∃ event ∈ wake powi keep identify known announcedAt fresh,
        event.kind = .changed ∧ event.objectId = some id) ↔
      ∃ previous record, known.rows.lookup id = some previous ∧
        (table keep identify fresh).rows.lookup id = some record ∧
        sameRecord powi previous record = false := by
  simp only [mem_wake_iff, arrival_eq_some_iff, departure_eq_some_iff]
  constructor
  · rintro ⟨event, ⟨other, record, hseen, ⟨_, rfl⟩ | ⟨previous, hknown, hsame, rfl⟩⟩ |
      ⟨_, _, _, _, rfl⟩, hkind, hid⟩
    · cases hkind
    · have hother : some other = some id :=
        ((table keep identify fresh).named _ _ hseen).symm.trans hid
      cases hother
      exact ⟨previous, record, hknown, hseen, hsame⟩
    · cases hkind
  · rintro ⟨previous, record, hknown, hseen, hsame⟩
    exact ⟨_, .inl ⟨id, record, hseen, .inr ⟨previous, hknown, hsame, rfl⟩⟩, rfl,
      (table keep identify fresh).named _ _ hseen⟩

theorem sublist_map_filterMap {α β γ : Type} (f : α → Option β) (name : β → γ) (key : α → γ)
    (items : List α) (h : ∀ item ∈ items, ∀ found, f item = some found → name found = key item) :
    ((items.filterMap f).map name).Sublist (items.map key) := by
  induction items with
  | nil => exact .slnil
  | cons item items ih =>
    have hrest := ih fun other hother => h other (mem_cons_of_mem _ hother)
    cases hitem : f item with
    | none => rw [filterMap_cons_none hitem]; exact hrest.cons _
    | some found =>
      rw [filterMap_cons_some hitem, map_cons, map_cons,
        h item mem_cons_self found hitem]
      exact hrest.cons_cons _

theorem nodup_some_keys (rows : AList fun _ : String => RecordValue) :
    (rows.entries.map fun row => some row.1).Nodup := by
  have hkeys := rows.keys_nodup
  rw [AList.keys, List.keys] at hkeys
  simpa [List.map_map, Function.comp_def] using hkeys.map (Option.some_injective _)

/-- Each identity is reported once. -/
theorem nodup_wake :
    ((wake powi keep identify known announcedAt fresh).map (·.objectId)).Nodup := by
  have harrivals := sublist_map_filterMap
    (fun row : Sigma fun _ : String => RecordValue =>
      arrival powi identify known announcedAt row.1 row.2)
    (·.objectId) (fun row => some row.1) (table keep identify fresh).rows.entries
    fun row hrow found hfound => by
      have hnamed := (table keep identify fresh).named row.1 row.2 (AList.mem_lookup_iff.2 hrow)
      rcases arrival_eq_some_iff.1 hfound with ⟨-, rfl⟩ | ⟨_, -, -, rfl⟩ <;> exact hnamed
  have hdepartures := sublist_map_filterMap
    (fun row : Sigma fun _ : String => RecordValue =>
      departure identify (table keep identify fresh) announcedAt row.1 row.2)
    (·.objectId) (fun row => some row.1) known.rows.entries
    fun row hrow found hfound => by
      obtain ⟨-, rfl⟩ := departure_eq_some_iff.1 hfound
      exact known.named row.1 row.2 (AList.mem_lookup_iff.2 hrow)
  rw [wake, map_append]
  refine nodup_append.2 ⟨(nodup_some_keys _).sublist harrivals,
    (nodup_some_keys _).sublist hdepartures, fun one hone other hother hsame => ?_⟩
  obtain ⟨row, hrow, rfl⟩ := mem_map.1 (harrivals.subset hone)
  obtain ⟨event, hevent, rfl⟩ := mem_map.1 hother
  obtain ⟨gone, hgone, hdeparture⟩ := mem_filterMap.1 hevent
  obtain ⟨hmissing, rfl⟩ := departure_eq_some_iff.1 hdeparture
  have hnamed : identify gone.2 = some gone.1 := known.named _ _ (AList.mem_lookup_iff.2 hgone)
  have hkey : row.1 = gone.1 := Option.some.inj (hsame.trans hnamed)
  rw [← hkey, AList.mem_lookup_iff.2 hrow] at hmissing
  cases hmissing

/-- **When the events of one announcement are the difference.** -/
theorem exact_wake_iff :
    Exact powi keep identify known fresh (wake powi keep identify known announcedAt fresh) ↔
      StableRead powi keep identify known fresh := by
  constructor
  · intro h
    refine ⟨?_, fun id previous record hknown hseen hcontent => ?_⟩
    · by_contra hnot
      push Not at hnot
      obtain ⟨herrors, id, hknown, hgone⟩ := hnot
      have hgone : (table keep identify fresh).rows.lookup id = none := by simpa using hgone
      exact herrors ((h.removed_iff id).1 (removed_wake_iff.2 ⟨hknown, hgone⟩)).2.2
    · by_contra hobserved
      obtain ⟨one, other, hone, hother, hdiffers⟩ := (h.changed_iff id).1
        (changed_wake_iff.2 ⟨previous, record, hknown, hseen, by simp [sameRecord_eq, hobserved]⟩)
      cases hone.symm.trans hknown
      cases hother.symm.trans hseen
      rw [hcontent] at hdiffers
      cases hdiffers
  · rintro ⟨herrors, hobserved⟩
    refine ⟨fun id => added_wake_iff, fun id => ?_, fun id => ?_, nodup_wake⟩
    · rw [removed_wake_iff]
      refine ⟨fun ⟨hknown, hgone⟩ => ⟨hknown, hgone, herrors.resolve_right fun h => ?_⟩,
        fun ⟨hknown, hgone, _⟩ => ⟨hknown, hgone⟩⟩
      have hseen := h id hknown
      rw [hgone] at hseen
      cases hseen
    · rw [changed_wake_iff]
      refine exists_congr fun previous => exists_congr fun record => ?_
      refine and_congr_right fun hknown => and_congr_right fun hseen => ?_
      rw [sameRecord_eq, Bool.and_eq_false_iff, or_iff_left_iff_imp]
      intro hprovenance
      by_contra hcontent
      rw [hobserved id previous record hknown hseen (by simpa using hcontent)] at hprovenance
      cases hprovenance

/-! ### The events of a watch -/

variable {rows : AList fun _ : String => RecordValue} {events : List ObjectEvent}

theorem lookup_apply_of_ne (h : event.objectId ≠ some id) :
    (event.apply rows).lookup id = rows.lookup id := by
  unfold ObjectEvent.apply
  cases hid : event.objectId with
  | none => rfl
  | some other =>
    have hne : id ≠ other := fun heq => h (hid.trans (congrArg some heq.symm))
    cases event.kind with
    | removed => exact AList.lookup_erase_ne hne
    | snapshot | added | changed => exact AList.lookup_insert_ne hne

theorem lookup_foldl_apply_of_forall (h : ∀ event ∈ events, event.objectId ≠ some id) :
    (events.foldl ObjectEvent.apply rows).lookup id = rows.lookup id := by
  induction events generalizing rows with
  | nil => rfl
  | cons event events ih =>
    rw [foldl_cons, ih fun other hother => h other (mem_cons_of_mem _ hother),
      lookup_apply_of_ne (h event mem_cons_self)]

theorem lookup_foldl_apply_of_mem (hevent : event ∈ events) (hid : event.objectId = some id)
    (hnodup : (events.map (·.objectId)).Nodup) :
    (events.foldl ObjectEvent.apply rows).lookup id =
      if event.kind = .removed then none else some event.value := by
  obtain ⟨before, after, rfl⟩ := append_of_mem hevent
  rw [map_append, map_cons, nodup_append, nodup_cons] at hnodup
  have hafter : ∀ other ∈ after, other.objectId ≠ some id := fun other hother heq =>
    hnodup.2.1.1 (mem_map.2 ⟨other, hother, heq.trans hid.symm⟩)
  rw [foldl_append, foldl_cons, lookup_foldl_apply_of_forall hafter]
  unfold ObjectEvent.apply
  rw [hid]
  cases event.kind with
  | removed => exact AList.lookup_erase _ _
  | snapshot | added | changed => exact AList.lookup_insert _

/-- An event of one announcement is about the row of its identity. -/
theorem row_of_mem_wake (hevent : event ∈ wake powi keep identify known announcedAt fresh)
    (hid : event.objectId = some id) :
    (event.kind ≠ .removed ∧ (table keep identify fresh).rows.lookup id = some event.value ∧
        arrival powi identify known announcedAt id event.value = some event) ∨
      event.kind = .removed ∧ (known.rows.lookup id).isSome ∧
        (table keep identify fresh).rows.lookup id = none := by
  rcases mem_wake_iff.1 hevent with
    ⟨other, record, hseen, harrival⟩ | ⟨other, record, hknown, hgone⟩
  · have hnamed := (table keep identify fresh).named _ _ hseen
    rcases arrival_eq_some_iff.1 harrival with ⟨-, rfl⟩ | ⟨_, -, -, rfl⟩ <;>
    · cases hnamed.symm.trans hid
      exact .inl ⟨by simp [eventOf], hseen, harrival⟩
  · obtain ⟨hmissing, rfl⟩ := departure_eq_some_iff.1 hgone
    cases (known.named _ _ hknown).symm.trans hid
    exact .inr ⟨rfl, by simp [hknown], hmissing⟩

/-- The events of one announcement lead from a table to the one that was read. -/
theorem agrees_wake (h : Agrees powi rows known.rows) :
    Agrees powi ((wake powi keep identify known announcedAt fresh).foldl ObjectEvent.apply rows)
      (table keep identify fresh).rows := by
  intro id
  by_cases hnamed : ∃ event ∈ wake powi keep identify known announcedAt fresh,
      event.objectId = some id
  · obtain ⟨event, hevent, hid⟩ := hnamed
    rw [lookup_foldl_apply_of_mem hevent hid nodup_wake]
    rcases row_of_mem_wake hevent hid with ⟨hkind, hseen, -⟩ | ⟨hkind, -, hgone⟩
    · rw [if_neg hkind, hseen]
      exact .some .refl
    · rw [if_pos hkind, hgone]
      exact .none
  · push Not at hnamed
    rw [lookup_foldl_apply_of_forall hnamed]
    have hrow := h id
    -- nothing is reported: the identity is in both tables with equal records, or in neither
    cases hseen : (table keep identify fresh).rows.lookup id with
    | none =>
      cases hknown : known.rows.lookup id with
      | none => rwa [hknown] at hrow
      | some record =>
        have hknown : (known.rows.lookup id).isSome := by simp [hknown]
        obtain ⟨event, hevent, -, hid⟩ := removed_wake_iff.2 ⟨hknown, hseen⟩
        exact absurd hid (hnamed event hevent)
    | some record =>
      cases hknown : known.rows.lookup id with
      | none =>
        have hseen : ((table keep identify fresh).rows.lookup id).isSome := by simp [hseen]
        obtain ⟨event, hevent, -, hid⟩ := added_wake_iff.2 ⟨hknown, hseen⟩
        exact absurd hid (hnamed event hevent)
      | some previous =>
        have hsame : sameRecord powi previous record = true := by
          by_contra hdiffers
          obtain ⟨event, hevent, -, hid⟩ := changed_wake_iff.2
            ⟨previous, record, hknown, hseen, by simpa using hdiffers⟩
          exact hnamed event hevent hid
        rw [hknown] at hrow
        generalize rows.lookup id = row at hrow ⊢
        cases hrow with
        | some hchain => exact .some (hchain.tail hsame)

/-- **The events of a watch lead from the first table to the last.** -/
theorem agrees_watch (reads : List (ℤ × Option Decoded)) (h : Agrees powi rows known.rows) :
    Agrees powi ((watch powi keep identify known reads).1.foldl ObjectEvent.apply rows)
      (watch powi keep identify known reads).2.rows := by
  induction reads generalizing known rows with
  | nil => exact h
  | cons read reads ih =>
    match read with
    | (_, none) => exact ih h
    | (_, some _) =>
      rw [watch, foldl_append]
      exact ih (agrees_wake h)

theorem allExact_iff (reads : List (ℤ × Option Decoded)) :
    AllExact powi keep identify known reads ↔ Steady powi keep identify known reads := by
  induction reads generalizing known with
  | nil => exact Iff.rfl
  | cons read reads ih =>
    match read with
    | (_, none) => exact ih
    | (_, some _) => exact and_congr exact_wake_iff ih

/-- **When watch events are the difference of two tables.** -/
theorem tracks_iff (first : Table identify) (reads : List (ℤ × Option Decoded)) :
    Tracks powi keep identify first reads ↔ Steady powi keep identify first reads := by
  refine (and_iff_left ?_).trans (allExact_iff reads)
  refine agrees_watch reads fun id => ?_
  cases first.rows.lookup id with
  | none => exact .none
  | some record => exact .some .refl

end Watch

/-! ### An interface that did not change -/

/-- The schema of an interface, as far as it is needed here. -/
def interfaceSchema : Schema :=
  ⟨⟨"ono.interface", 1⟩, ["name"]⟩

/-- The record of an interface, as a read at an instant gives it. -/
def interface (observed : ℤ) : RecordValue where
  schema := interfaceSchema
  fields := [.string "lo"]
  extra := []
  provenance :=
    { Provenance.fixed with
      provider := "linux.netlink", observed := some observed, schema := interfaceSchema.id }

/-- An interface that did not change is reported as changed, for it was observed again. -/
theorem not_tracks :
    ¬ ∀ (powi : ℕ → UInt64) (keep : RecordValue → Bool) (identify : RecordValue → Option String)
      (first : Table identify) (reads : List (ℤ × Option Decoded)),
      Tracks powi keep identify first reads := by
  intro h
  let identify : RecordValue → Option String := fun record => some record.schema.id.name
  let known : Table identify := table (fun _ => true) identify ⟨[interface 0], []⟩
  have hexact := (h (fun _ => 0) (fun _ => true) identify known [(1, some ⟨[interface 1], []⟩)]).1.1
  have hreported : ∃ event ∈ wake (fun _ => 0) (fun _ => true) identify known 1 ⟨[interface 1], []⟩,
      event.kind = .changed ∧ event.objectId = some "ono.interface" :=
    changed_wake_iff.2 ⟨interface 0, interface 1, rfl, rfl, rfl⟩
  obtain ⟨previous, record, hknown, hseen, hdiffers⟩ :=
    (hexact.changed_iff "ono.interface").1 hreported
  obtain rfl : interface 0 = previous := Option.some.inj hknown
  obtain rfl : interface 1 = record := Option.some.inj hseen
  exact absurd hdiffers (by decide)

end OnoSendai.Netlink
