import OnoSendai.Lib.Buckets
import OnoSendai.Pipeline.Stage

/-!
# Grouping by a key

`group` reads the key of every value (`ono_pipeline::transforms::group`) and puts the value into
the bucket of what stands in for the key: the name of its kind and its rendering. Whether two keys
are equal is not asked. Every bucket becomes a record, in the order the buckets were opened.
-/

namespace OnoSendai.Pipeline

open Keyed List

/-! ### The stage -/

/-- The schema of a group. -/
def groupingSchema : Schema where
  id := ⟨"ono.grouping", 1⟩
  fields := ["key", "count", "items"]

/-- The record of a group. -/
def groupingRecord (known : Value) (members : List Value) : Except ErrorValue Value := do
  let record ← (RecordValue.builder groupingSchema (provenance groupingSchema)).set "key" known
  let record ← record.set "count" (.int members.length)
  let record ← record.set "items" (.list members)
  return record.intoValue

namespace Group

/-- Buckets in the order they were opened, each with the key that opened it and its members. -/
abbrev Buckets : Type :=
  List (String × (Value × List Value))

/-- The records of the buckets. -/
def finish : Buckets → List Emission
  | [] => []
  | (_, known, members) :: buckets =>
    match groupingRecord known members with
    | .error failure => [.failure failure]
    | .ok record => .value record :: finish buckets

variable (printers : Printers) (estimatedSize : Value → ℕ) (key : KeyFn)

/-- Puts a value into the bucket of its key. -/
def bucket (known value : Value) (buckets : Buckets) : Buckets :=
  upsert (keyRepr printers known) (known, [value])
    (fun held => (held.1, held.2 ++ [value])) buckets

/-- Reads the values that are left. -/
def run (budget : Budget) (buckets : Buckets) : List Value → List Emission
  | [] => finish buckets
  | value :: values =>
    match budget.charge estimatedSize value with
    | .error exceeded => [.failure exceeded.intoError]
    | .ok budget =>
      match key value with
      | .ok known => run budget (bucket printers known value buckets) values
      | .error failure => .failure failure :: run budget buckets values

/-- Groups values by a key. -/
def apply (limits : MaterializationLimits) (values : List Value) : List Emission :=
  run printers estimatedSize key (limits.budgetFor "group") [] values

end Group

/-! ### What is emitted -/

/-- A group, as its record tells it. -/
structure Grouping where
  key : Value
  count : ℤ
  items : List Value

/-- The group an emitted record tells of. -/
def Grouping.ofEmission : Emission → Option Grouping
  | .value (.record schema [known, .int count, .list items] _ _) =>
    if schema = groupingSchema then some ⟨known, count, items⟩ else none
  | _ => none

/-- A key and its values as a group. -/
def Grouping.ofBucket (group : Value × List Value) : Grouping :=
  ⟨group.1, group.2.length, group.2⟩

/-- The groups that are emitted. -/
def groupings (emitted : List Emission) : List Grouping :=
  emitted.filterMap Grouping.ofEmission

section Emitted

variable {printers : Printers} {estimatedSize : Value → ℕ} {key : KeyFn} {budget : Budget}
  {buckets : Group.Buckets} {values : List Value}

theorem groupingRecord_eq (known : Value) (members : List Value) :
    groupingRecord known members = .ok (.record groupingSchema
      [known, .int members.length, .list members] [] (provenance groupingSchema)) :=
  rfl

theorem groupings_finish :
    groupings (Group.finish buckets) = buckets.map fun bucket => .ofBucket bucket.2 := by
  induction buckets with
  | nil => rfl
  | cons bucket buckets ih =>
    obtain ⟨repr, known, members⟩ := bucket
    rw [Group.finish, groupingRecord_eq, groupings]
    exact congrArg _ ih

/-- The groups of the values that are left: none where one is refused, else those of the buckets
that the values with a key are put into. -/
theorem groupings_run :
    groupings (Group.run printers estimatedSize key budget buckets values) =
      if (budget.chargeAll estimatedSize values).isOk then
        groupings (Group.finish ((readable key values).foldl
          (fun buckets entry => Group.bucket printers entry.1 entry.2 buckets) buckets))
      else [] := by
  induction values generalizing budget buckets with
  | nil => rfl
  | cons value values ih =>
    rw [Group.run, Budget.chargeAll]
    cases hcharge : budget.charge estimatedSize value with
    | error exceeded => rfl
    | ok left =>
      cases hkey : key value with
      | error failure =>
        rw [readable_cons_error hkey, ← ih]
        rfl
      | ok known =>
        rw [readable_cons_ok hkey, foldl_cons, ← ih]

/-- What stands in for the key of an entry. -/
def entryRepr (printers : Printers) (entry : Value × Value) : String :=
  keyRepr printers entry.1

/-- The group of entries, by the key of the first. -/
def groupOf (entries : List (Value × Value)) : Value × List Value :=
  ((entries.head?.map (·.1)).getD .null, entries.map (·.2))

/-- The groups of entries: one for each rendering of a key. -/
def groupsOf (printers : Printers) (entries : List (Value × Value)) : List Grouping :=
  (firstKept (entryRepr printers) entries).map fun first =>
    .ofBucket (groupOf (entries.filter (entryRepr printers · = entryRepr printers first)))

theorem gather_bucket (entries : List (Value × Value)) :
    entries.foldl (fun buckets entry => Group.bucket printers entry.1 entry.2 buckets) [] =
      (firstKept (entryRepr printers) entries).map fun first => (entryRepr printers first,
        groupOf (entries.filter (entryRepr printers · = entryRepr printers first))) := by
  refine @gather_eq _ _ _ _ (entryRepr printers) (fun entry => (entry.1, [entry.2]))
    (fun entry held => (held.1, held.2 ++ [entry.2])) groupOf (fun _ => rfl) ?_ entries
  intro held entry hheld
  obtain ⟨first, rest, rfl⟩ := exists_cons_of_ne_nil hheld
  rw [groupOf, groupOf, map_append]
  rfl

theorem groupings_apply {limits : MaterializationLimits} :
    groupings (Group.apply printers estimatedSize key limits values) =
      if ((limits.budgetFor "group").chargeAll estimatedSize values).isOk then
        groupsOf printers (readable key values)
      else [] := by
  rw [Group.apply, groupings_run, gather_bucket, groupings_finish, List.map_map]
  rfl

end Emitted

/-! ### Partitions -/

/-- A partition of entries by equality of their keys: every value is in one group and the values
of a group are in the order of arrival; two values are in one group if and only if their keys are
equal; the groups are in the order their keys were first seen; the key of a group is that of its
first value, and its count the number of its values. -/
structure Partitions (powi : ℕ → UInt64) (entries : List (Value × Value))
    (groups : List Grouping) : Prop where
  complete : (groups.flatMap (·.items)).Perm (entries.map (·.2))
  arrival : ∀ group ∈ groups, group.items.Sublist (entries.map (·.2))
  together : ∀ (i j : ℕ) (one other : Value × Value), i ≠ j → entries[i]? = some one →
    entries[j]? = some other →
    ((∃ group ∈ groups, one.2 ∈ group.items ∧ other.2 ∈ group.items) ↔ one.1.eq powi other.1 = true)
  firstSeen : groups.Pairwise fun group later => ∃ before first after,
    entries.map (·.2) = before ++ first :: after ∧ first ∈ group.items ∧
      ∀ other ∈ before ++ [first], other ∉ later.items
  key : ∀ group ∈ groups, ∃ first, group.items.head? = some first ∧ (group.key, first) ∈ entries
  count : ∀ group ∈ groups, group.count = group.items.length

/-- Whether keys stand in for each other exactly when they are equal. -/
def KeysApart (printers : Printers) (powi : ℕ → UInt64) (entries : List (Value × Value)) : Prop :=
  ∀ (i j : ℕ) (one other : Value × Value), i ≠ j → entries[i]? = some one →
    entries[j]? = some other →
    (keyRepr printers one.1 = keyRepr printers other.1 ↔ one.1.eq powi other.1 = true)

section Partition

variable {printers : Printers} {powi : ℕ → UInt64} {key : KeyFn} {values : List Value}
  {entries : List (Value × Value)}

theorem mem_groupsOf {group : Grouping} :
    group ∈ groupsOf printers entries ↔ ∃ first ∈ firstKept (entryRepr printers) entries,
      group = .ofBucket
        (groupOf (entries.filter (entryRepr printers · = entryRepr printers first))) := by
  rw [groupsOf, mem_map]
  simp only [eq_comm]

theorem mem_map_filter_iff {entry first : Value × Value} (hentry : entry ∈ readable key values) :
    entry.2 ∈ ((readable key values).filter
        (entryRepr printers · = entryRepr printers first)).map (·.2) ↔
      entryRepr printers entry = entryRepr printers first := by
  rw [mem_map]
  constructor
  · rintro ⟨other, hother, hvalue⟩
    rw [mem_filter, decide_eq_true_eq] at hother
    have hkey := (mem_readable.1 hentry).2
    rw [← hvalue, (mem_readable.1 hother.1).2] at hkey
    rw [← hother.2, entryRepr, entryRepr, Except.ok.inj hkey]
  · intro h
    exact ⟨entry, mem_filter.2 ⟨hentry, decide_eq_true h⟩, rfl⟩

theorem exists_group_iff {one other : Value × Value} (hone : one ∈ readable key values)
    (hother : other ∈ readable key values) :
    (∃ group ∈ groupsOf printers (readable key values),
        one.2 ∈ group.items ∧ other.2 ∈ group.items) ↔
      keyRepr printers one.1 = keyRepr printers other.1 := by
  constructor
  · rintro ⟨group, hgroup, hmem⟩
    obtain ⟨first, -, rfl⟩ := mem_groupsOf.1 hgroup
    exact ((mem_map_filter_iff hone).1 hmem.1).trans ((mem_map_filter_iff hother).1 hmem.2).symm
  · intro hrepr
    obtain ⟨first, hfirst, hkey⟩ := exists_mem_firstKept (entryRepr printers) hone
    refine ⟨_, mem_groupsOf.2 ⟨first, hfirst, rfl⟩, (mem_map_filter_iff hone).2 hkey.symm,
      (mem_map_filter_iff hother).2 ?_⟩
    exact hrepr.symm.trans hkey.symm

theorem partitions_groupsOf_iff :
    Partitions powi (readable key values) (groupsOf printers (readable key values)) ↔
      KeysApart printers powi (readable key values) := by
  constructor
  · intro h i j one other hne hone hother
    rw [← h.together i j one other hne hone hother]
    exact (exists_group_iff (mem_of_getElem? hone) (mem_of_getElem? hother)).symm
  · intro h
    refine ⟨?_, ?_, ?_, ?_, ?_, ?_⟩
    · have hperm := (@perm_flatMap_filter _ _ _ (entryRepr printers) (readable key values)).map
        Prod.snd
      rw [map_flatMap] at hperm
      rw [groupsOf, flatMap_map]
      exact hperm
    · intro group hgroup
      obtain ⟨first, -, rfl⟩ := mem_groupsOf.1 hgroup
      exact filter_sublist.map _
    · intro i j one other hne hone hother
      rw [← h i j one other hne hone hother]
      exact exists_group_iff (mem_of_getElem? hone) (mem_of_getElem? hother)
    · rw [groupsOf, pairwise_map]
      refine (@firstKept_pairwise _ _ _ (entryRepr printers) (readable key values)).imp ?_
      rintro first later ⟨before, after, hsplit, hnone⟩
      refine ⟨before.map (·.2), first.2, after.map (·.2), ?_, ?_, ?_⟩
      · rw [hsplit, map_append, map_cons]
      · exact mem_map_of_mem (mem_filter.2 ⟨by rw [hsplit]; simp, by simp⟩)
      · rw [show before.map (·.2) ++ [first.2] = (before ++ [first]).map (·.2) by simp]
        intro value hvalue
        obtain ⟨entry, hentry, rfl⟩ := mem_map.1 hvalue
        have hmem : entry ∈ readable key values := by
          rw [hsplit, mem_append, mem_cons]
          rw [mem_append, mem_singleton] at hentry
          exact hentry.imp id .inl
        exact fun hlater => hnone entry hentry ((mem_map_filter_iff hmem).1 hlater)
    · intro group hgroup
      obtain ⟨first, hfirst, rfl⟩ := mem_groupsOf.1 hgroup
      have hmem : first ∈ (readable key values).filter
          (entryRepr printers · = entryRepr printers first) :=
        mem_filter.2 ⟨mem_of_mem_firstKept hfirst, by simp⟩
      obtain ⟨head, rest, hsplit⟩ := exists_cons_of_ne_nil (ne_nil_of_mem hmem)
      refine ⟨head.2, ?_, ?_⟩
      · rw [hsplit]
        rfl
      · rw [hsplit]
        exact (mem_filter.1 (hsplit ▸ mem_cons_self)).1
    · intro group hgroup
      obtain ⟨first, -, rfl⟩ := mem_groupsOf.1 hgroup
      rfl

theorem partitions_nil_iff : Partitions powi entries [] ↔ entries = [] := by
  constructor
  · intro h
    exact map_eq_nil_iff.1 h.complete.nil_eq.symm
  · rintro rfl
    exact ⟨.nil, by simp, by simp, .nil, by simp, by simp⟩

/-- **Groups are a partition where keys that look alike are equal.** The groups are a partition of
the values whose key is read exactly where the budget admits all values and two keys stand in for
each other if and only if they are equal, or where a value is refused and no key is read. -/
theorem partitions_iff (printers : Printers) (powi : ℕ → UInt64) (estimatedSize : Value → ℕ)
    (key : KeyFn) (limits : MaterializationLimits) (values : List Value) :
    Partitions powi (readable key values)
        (groupings (Group.apply printers estimatedSize key limits values)) ↔
      (limits.budgetFor "group").Admits estimatedSize values ∧
          KeysApart printers powi (readable key values) ∨
        ¬(limits.budgetFor "group").Admits estimatedSize values ∧ readable key values = [] := by
  rw [groupings_apply]
  by_cases hadmits : (limits.budgetFor "group").Admits estimatedSize values
  · have hok : ((limits.budgetFor "group").chargeAll estimatedSize values).isOk = true := hadmits
    rw [if_pos hok, partitions_groupsOf_iff, and_iff_right hadmits]
    exact (or_iff_left fun h => h.1 hadmits).symm
  · have hrefused : ¬((limits.budgetFor "group").chargeAll estimatedSize values).isOk = true :=
      hadmits
    rw [if_neg hrefused, partitions_nil_iff, and_iff_right hadmits]
    exact (or_iff_right fun h => hadmits h.1).symm

/-- **Keys that look alike.** One millisecond and one and a half are rendered alike, and their
values are put into one group. -/
theorem not_partitions_milliseconds :
    ¬∀ (printers : Printers) (powi : ℕ → UInt64) (estimatedSize : Value → ℕ) (key : KeyFn)
      (limits : MaterializationLimits) (values : List Value),
      (limits.budgetFor "group").Admits estimatedSize values →
      Partitions powi (readable key values)
        (groupings (Group.apply printers estimatedSize key limits values)) := by
  intro h
  have hadmits : (Budget.chargeAll (fun _ => 32) (MaterializationLimits.budgetFor ⟨2, 64⟩ "group")
      [.duration 1000000, .duration 1500000]).isOk = true := rfl
  have hpartition := h silent (fun _ => 0) (fun _ => 32) .ok ⟨2, 64⟩
    [.duration 1000000, .duration 1500000] hadmits
  rw [groupings_apply, if_pos hadmits, partitions_groupsOf_iff] at hpartition
  have hequal := (hpartition 0 1 (.duration 1000000, .duration 1000000)
    (.duration 1500000, .duration 1500000) (by decide) rfl rfl).1 (by decide +kernel)
  cases hequal

end Partition

end OnoSendai.Pipeline
