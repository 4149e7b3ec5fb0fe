import Mathlib.Data.Prod.Lex
import OnoSendai.Lib.Buckets
import OnoSendai.Temporal.Store
import OnoSendai.Value.Equality

/-!
# What changed between two instants

The changes of a window are computed from its events: one for each event about a relation, and one
for each subject whose events amount to something. The class of a subject's change comes from its
last lifecycle event, and the two sides of a field from the first and the last report about it.

Subjects are told apart by their whole reference, the label included, and how well a folded field is
known is taken from its earlier side alone. The answer is therefore honest only for the windows in
which no object is called by two references, and no field comes to an unobserved or an equal side.
-/

namespace OnoSendai.Temporal

open Keyed List TemporalEvent FieldChange

/-! ### Requests and answers -/

/-- What the engine reads of a ledger: its events and its coverage. -/
structure LedgerRead where
  events : EventQuery → Except ErrorValue (List TemporalEvent)
  coverage : CoverageQuery → Except ErrorValue (List TemporalCoverage)

/-- What a caller asks `changes` for. -/
structure ChangesRequest where
  scope : SpatialScope
  subjects : List SpatialId
  since : Int
  until' : Option Int
  limit : Nat

/-- The class of a difference between two instants. -/
inductive ChangeClass
  | added
  | removed
  | changed
  | relationAdded
  | relationRemoved
deriving DecidableEq

instance : Vocabulary ChangeClass where
  all := [.added, .removed, .changed, .relationAdded, .relationRemoved]
  asStr
    | .added => "added"
    | .removed => "removed"
    | .changed => "changed"
    | .relationAdded => "relation_added"
    | .relationRemoved => "relation_removed"
  mem_all member := by cases member <;> decide
  spellings_nodup := by decide

/-- The order of the classes. -/
def ChangeClass.rank : ChangeClass → Nat
  | added => 0
  | removed => 1
  | changed => 2
  | relationAdded => 3
  | relationRemoved => 4

/-- The edge a relation change is about. -/
structure RelationChange where
  from' : SpatialRef
  to' : SpatialRef
  relation : String
  confidence : Option String

/-- What became different about one subject between two instants. -/
structure TemporalChange where
  changeId : String
  class' : ChangeClass
  subject : SpatialRef
  fromTime : Int
  toTime : Int
  fieldChanges : List FieldChange
  relation : Option RelationChange
  coverage : CoverageSummary
  provenance : Provenance

/-- The words a person reads. -/
def SpatialRef.label : SpatialRef → String
  | resolved _ _ label => label
  | unresolved _ described => described

/-! ### Identities of changes -/

/-- FNV-1a over a text. -/
def fnv1a (text : String) : UInt64 :=
  text.toUTF8.toList.foldl (fun hash byte => (hash ^^^ byte.toUInt64) * 0x100000001b3)
    0xcbf29ce484222325

/-- A hash as sixteen hexadecimal digits. -/
def hashText (hash : UInt64) : String :=
  String.ofList ((range 16).map fun place =>
    hexDigit ⟨hash.toNat / 16 ^ (15 - place) % 16, Nat.mod_lt _ (by decide)⟩)

section Engine

variable (debug : Value → String)

/-- A value as identity text; an unobserved side renders as nothing. -/
def renderSide (side : Option Value) : String :=
  side.elim "" debug

/-- The stable identity of one computed change. -/
def changeIdentity (class' : ChangeClass) (subject : SpatialRef) (fromTime toTime : Int)
    (fieldChanges : List FieldChange) (relation : Option RelationChange) : String :=
  let token := Vocabulary.asStr class' ++ "\x01" ++
    (subject.spatialId.elim subject.label fun id => id.text) ++ "\x01" ++ toString fromTime ++
    "\x01" ++ toString toTime
  let fields := fieldChanges.map fun change =>
    "\x01" ++ change.field ++ "\x02" ++ renderSide debug change.before ++ "\x02" ++
      renderSide debug change.after
  let edge := relation.elim "" fun edge => "\x01" ++ edge.relation ++ "\x02" ++ edge.to'.label
  "c" ++ hashText (fnv1a (token ++ String.join fields ++ edge))

/-- Assembles a change and mints its identity. -/
def buildChange (class' : ChangeClass) (subject : SpatialRef) (fromTime toTime : Int)
    (fieldChanges : List FieldChange) (relation : Option RelationChange)
    (coverage : CoverageSummary) : TemporalChange where
  changeId := changeIdentity debug class' subject fromTime toTime fieldChanges relation
  class' := class'
  subject := subject
  fromTime := fromTime
  toTime := toTime
  fieldChanges := fieldChanges
  relation := relation
  coverage := coverage
  provenance :=
    { provider := "ono.temporal"
      observed := none
      source := none
      link := .onThisHost
      schema := ⟨"ono.temporal-change", 1⟩
      confidence := none
      adapter := none }

/-! ### Relations -/

/-- A text a payload holds under a name. -/
def relationText (payload : Option Value) (name : String) : Option String :=
  match payload with
  | some (.map entries) =>
    match mapGet entries name with
    | some (.string text) => some text
    | _ => none
  | _ => none

/-- Whether an event is about a relation. -/
def TemporalEvent.isRelation (event : TemporalEvent) : Bool :=
  event.kind = .relationAdded || event.kind = .relationRemoved

/-- The class of the change a relation event amounts to. -/
def relationClass : EventKind → Option ChangeClass
  | .relationAdded => some .relationAdded
  | .relationRemoved => some .relationRemoved
  | _ => none

/-- The change a relation event amounts to. -/
def relationChange (request : ChangesRequest) (finish : Int) (coverage : CoverageSummary)
    (event : TemporalEvent) : Option TemporalChange := do
  let class' ← relationClass event.kind
  let from' ← event.subject
  let to' ← event.related.head?
  let relation := (relationText event.payload "relation").getD "related"
  let confidence := relationText event.payload "confidence"
  some (buildChange debug class' from' request.since finish []
    (some ⟨from', to', relation, confidence⟩) coverage)

/-! ### Objects -/

/-- The events of one subject, in the order they are shown in. -/
structure SubjectRun where
  subject : SpatialRef
  events : List TemporalEvent

/-- The events about objects, each with its subject. -/
def subjectEvents (events : List TemporalEvent) : List (SpatialRef × TemporalEvent) :=
  events.filterMap fun event =>
    if event.isRelation then none else event.subject.map fun subject => (subject, event)

/-- Splits events by the subject they are about. -/
def groupBySubject (events : List TemporalEvent) : List SubjectRun :=
  (gather (fun entry : SpatialRef × TemporalEvent => entry.1) (fun entry => [entry.2])
    (fun entry run => run ++ [entry.2]) (subjectEvents events)).map fun run => ⟨run.1, run.2⟩

/-- How well a folded change is known, given whether anything observed its earlier side. -/
def certaintyOf (before : Option Value) (reported : ChangeCertainty) : ChangeCertainty :=
  if before.isNone then .unknown else reported

/-- The change the first report about a field opens. -/
def openedChange (change : FieldChange) : FieldChange where
  field := change.field
  before := change.before
  after := change.after
  certainty := certaintyOf change.before change.certainty

/-- A further report about a field moves its later side. -/
def foldChange (change held : FieldChange) : FieldChange :=
  { held with
    after := change.after
    certainty := certaintyOf held.before held.certainty }

/-- The two sides of every field a run of events touched. -/
def foldFields (events : List TemporalEvent) : List FieldChange :=
  (gather field openedChange foldChange (events.flatMap (·.changedFields))).map (·.2)

/-- Whether an event says that its subject came into being or went away. -/
def TemporalEvent.isLifecycle (event : TemporalEvent) : Bool :=
  event.kind = .objectAppeared || event.kind = .objectDisappeared

/-- The kind of the last lifecycle event of a run. -/
def lastLifecycle (events : List TemporalEvent) : Option EventKind :=
  (events.reverse.find? (·.isLifecycle)).map (·.kind)

/-- The class a last lifecycle event stands for. -/
def classOf : Option EventKind → ChangeClass
  | some .objectAppeared => .added
  | some .objectDisappeared => .removed
  | _ => .changed

/-- The change one subject's run of events amounts to over the window. -/
def objectChange (request : ChangesRequest) (finish : Int) (coverage : CoverageSummary)
    (run : SubjectRun) : Option TemporalChange :=
  let class' := classOf (lastLifecycle run.events)
  let fieldChanges := if class' = .changed then foldFields run.events else []
  if class' = .changed && fieldChanges.isEmpty then none
  else some (buildChange debug class' run.subject request.since finish fieldChanges none coverage)

/-! ### The answer -/

/-- What the changes of an answer are ordered by. -/
def TemporalChange.key (change : TemporalChange) : ℤ ×ₗ ℕ ×ₗ String ×ₗ String :=
  toLex (change.fromTime, toLex (change.class'.rank,
    toLex (change.subject.label, change.changeId)))

/-- The end of the window a request asks about. -/
def ChangesRequest.finish (request : ChangesRequest) (coordinate : Int) : Int :=
  max (request.until'.getD coordinate) request.since

/-- The events of the window a request asks about, in the order they are shown in. -/
def windowEvents (ledger : LedgerRead) (request : ChangesRequest) (coordinate : Int) :
    Except ErrorValue (List TemporalEvent) := do
  let events ← ledger.events
    { scope := some request.scope
      subjects := request.subjects
      kinds := []
      range := .between request.since (request.finish coordinate)
      limit := none
      order := .ascending }
  return presentationOrder events

/-- The changes the events of a window amount to. -/
def changesOf (request : ChangesRequest) (finish : Int) (coverage : CoverageSummary)
    (events : List TemporalEvent) : List TemporalChange :=
  (events.filterMap (relationChange debug request finish coverage) ++
    (groupBySubject events).filterMap (objectChange debug request finish coverage)).insertionSort
    fun a b => a.key ≤ b.key

/-- The answer to a request, before it is cut to the limit. -/
def compared (ledger : LedgerRead) (request : ChangesRequest) (coordinate : Int) :
    Except ErrorValue (List TemporalChange) := do
  let events ← windowEvents ledger request coordinate
  let window := TimeRange.between request.since (request.finish coordinate)
  let intervals ← ledger.coverage
    { scope := some request.scope, capabilities := [], range := window }
  return changesOf debug request (request.finish coordinate)
    (CoverageSummary.compose intervals window) events

end Engine

/-! ### What a run comes to -/

variable {event : TemporalEvent}

section Runs

variable {debug : Value → String} {request : ChangesRequest} {finish : Int}
  {coverage : CoverageSummary} {events run : List TemporalEvent} {subject : SpatialRef}

/-- What the reports about one field come to: the earlier side of the first, the later side of the
last, as certain as the first unless its earlier side was unobserved. -/
def foldedOf : List FieldChange → FieldChange
  | [] => ⟨"", none, none, .unknown⟩
  | first :: rest =>
    { field := first.field
      before := first.before
      after := (rest.getLast?.getD first).after
      certainty := certaintyOf first.before first.certainty }

theorem foldl_foldChange (first : FieldChange) (rest : List FieldChange) :
    rest.foldl (fun held change => foldChange change held) (openedChange first) =
      foldedOf (first :: rest) := by
  induction rest using reverseRecOn with
  | nil => rfl
  | append_singleton rest last ih =>
    have hcertainty : certaintyOf first.before (certaintyOf first.before first.certainty) =
        certaintyOf first.before first.certainty := by
      unfold certaintyOf
      split_ifs <;> rfl
    rw [foldl_append, ih, foldl_cons, foldl_nil, foldChange, foldedOf, foldedOf,
      getLast?_concat, Option.getD_some]
    simp only [hcertainty]

/-- The reports of a run about one field. -/
def reportsOf (run : List TemporalEvent) (field : String) : List FieldChange :=
  (run.flatMap (·.changedFields)).filter (·.field = field)

/-- **The fields of a run.** There is one change for each field the run reported about, and it is
what the reports about the field come to. -/
theorem mem_foldFields_iff {folded : FieldChange} : folded ∈ foldFields run ↔
    reportsOf run folded.field ≠ [] ∧ folded = foldedOf (reportsOf run folded.field) := by
  let content : List FieldChange → FieldChange := fun reports =>
    reports.tail.foldl (fun held change => foldChange change held)
      ((reports.head?.map openedChange).getD ⟨"", none, none, .unknown⟩)
  have hcontent : ∀ reports, content reports = foldedOf reports := by
    intro reports
    cases reports with
    | nil => rfl
    | cons first rest => exact foldl_foldChange first rest
  have hgather : gather field openedChange foldChange
      (run.flatMap (·.changedFields)) =
      (firstKept field (run.flatMap (·.changedFields))).map fun known =>
        (known.field, content (reportsOf run known.field)) :=
    gather_eq content (fun _ => rfl) (fun held change hne => by
      obtain ⟨first, rest, rfl⟩ := exists_cons_of_ne_nil hne
      simp [content, foldl_append]) _
  have hfield : ∀ {field : String}, reportsOf run field ≠ [] →
      (foldedOf (reportsOf run field)).field = field := by
    intro field hne
    obtain ⟨first, rest, hsplit⟩ := exists_cons_of_ne_nil hne
    have hfirst : first ∈ reportsOf run field := hsplit ▸ mem_cons_self
    rw [hsplit]
    exact of_decide_eq_true (mem_filter.1 hfirst).2
  rw [foldFields, hgather, map_map, mem_map]
  constructor
  · rintro ⟨known, hknown, rfl⟩
    have hne : reportsOf run known.field ≠ [] :=
      ne_nil_of_mem (mem_filter.2 ⟨mem_of_mem_firstKept hknown, by simp⟩)
    have heq : (content (reportsOf run known.field)).field = known.field := by
      rw [hcontent, hfield hne]
    simp only [Function.comp_apply, heq]
    exact ⟨hne, hcontent _⟩
  · rintro ⟨hne, hfolded⟩
    obtain ⟨change, hchange⟩ := exists_mem_of_ne_nil _ hne
    obtain ⟨hmem, hsame⟩ := mem_filter.1 hchange
    obtain ⟨known, hknown, hkey⟩ := exists_mem_firstKept field hmem
    refine ⟨known, hknown, ?_⟩
    have hsame : known.field = folded.field := hkey.trans (of_decide_eq_true hsame)
    simp only [Function.comp_apply, hcontent, hsame]
    exact hfolded.symm

theorem foldFields_eq_nil_iff : foldFields run = [] ↔ ∀ event ∈ run, event.changedFields = [] := by
  constructor
  · intro hnil event hevent
    by_contra hne
    obtain ⟨change, hchange⟩ := exists_mem_of_ne_nil _ hne
    have hmem : change ∈ reportsOf run change.field :=
      mem_filter.2 ⟨mem_flatMap.2 ⟨event, hevent, hchange⟩, by simp⟩
    obtain ⟨first, rest, hsplit⟩ := exists_cons_of_ne_nil (ne_nil_of_mem hmem)
    have hfirst : first.field = change.field :=
      of_decide_eq_true (mem_filter.1 (hsplit ▸ mem_cons_self :
        first ∈ reportsOf run change.field)).2
    have hfolded : foldedOf (reportsOf run change.field) ∈ foldFields run := by
      have hfield : (foldedOf (reportsOf run change.field)).field = change.field := by
        rw [hsplit]
        exact hfirst
      rw [mem_foldFields_iff, hfield]
      exact ⟨ne_nil_of_mem hmem, rfl⟩
    rw [hnil] at hfolded
    exact not_mem_nil hfolded
  · intro hnone
    have hreports : run.flatMap (·.changedFields) = [] := flatMap_eq_nil_iff.2 hnone
    rw [foldFields, hreports]
    rfl

/-- The events of a window that are about one object, called by one reference. -/
def runOf (events : List TemporalEvent) (subject : SpatialRef) : List TemporalEvent :=
  events.filter fun event => !event.isRelation && event.subject = some subject

theorem mem_runOf : event ∈ runOf events subject ↔
    event ∈ events ∧ event.isRelation = false ∧ event.subject = some subject := by
  simp [runOf]

theorem map_subjectEvents (events : List TemporalEvent) (subject : SpatialRef) :
    ((subjectEvents events).filter (·.1 = subject)).map (·.2) = runOf events subject := by
  induction events with
  | nil => rfl
  | cons event events ih =>
    rw [subjectEvents, runOf] at ih ⊢
    by_cases hrelation : event.isRelation = true
    · simpa [hrelation] using ih
    · cases hsubject : event.subject with
      | none => simpa [hrelation, hsubject] using ih
      | some other =>
        by_cases hsame : other = subject <;> simpa [hrelation, hsubject, hsame] using ih

/-- **The runs.** There is one for each reference, and it holds the events under it. -/
theorem groupBySubject_eq (events : List TemporalEvent) :
    groupBySubject events = (firstKept (fun entry => entry.1) (subjectEvents events)).map
      fun known => ⟨known.1, runOf events known.1⟩ := by
  have hgather : gather (fun entry : SpatialRef × TemporalEvent => entry.1)
      (fun entry => [entry.2]) (fun entry run => run ++ [entry.2]) (subjectEvents events) =
      (firstKept (fun entry => entry.1) (subjectEvents events)).map fun known =>
        (known.1, ((subjectEvents events).filter (·.1 = known.1)).map (·.2)) :=
    gather_eq (fun entries : List (SpatialRef × TemporalEvent) => entries.map (·.2))
      (fun _ => rfl) (fun held item _ => map_append) _
  rw [groupBySubject, hgather, map_map]
  refine map_congr_left fun known _ => ?_
  simp only [Function.comp_apply, map_subjectEvents]

/-- An event that an answer tells of: it changed a field or its subject came or went. -/
def TemporalEvent.tells (event : TemporalEvent) : Bool :=
  event.isLifecycle || !event.changedFields.isEmpty

theorem lastLifecycle_eq_none_iff :
    lastLifecycle run = none ↔ ∀ event ∈ run, event.isLifecycle = false := by
  simp [lastLifecycle]

theorem classOf_eq_changed_iff : classOf (lastLifecycle run) = .changed ↔
    lastLifecycle run = none := by
  constructor
  · intro hclass
    by_contra hsome
    obtain ⟨kind, hkind⟩ := Option.ne_none_iff_exists'.1 hsome
    obtain ⟨event, hfound, rfl⟩ := Option.map_eq_some_iff.1 hkind
    have hlifecycle := find?_some hfound
    rw [hkind] at hclass
    simp only [isLifecycle, Bool.or_eq_true, decide_eq_true_eq] at hlifecycle
    rcases hlifecycle with heq | heq <;> simp [heq, classOf] at hclass
  · rintro hnone
    rw [hnone]
    rfl

/-- The change of a subject whose run tells of something. -/
def subjectChange (debug : Value → String) (request : ChangesRequest) (finish : Int)
    (coverage : CoverageSummary) (events : List TemporalEvent) (subject : SpatialRef) :
    TemporalChange :=
  let class' := classOf (lastLifecycle (runOf events subject))
  buildChange debug class' subject request.since finish
    (if class' = .changed then foldFields (runOf events subject) else []) none coverage

/-- A run comes to a change exactly where one of its events tells of something. -/
theorem objectChange_eq : objectChange debug request finish coverage ⟨subject, runOf events subject⟩ =
    if (runOf events subject).any (·.tells) then
      some (subjectChange debug request finish coverage events subject)
    else none := by
  have hquiet : (classOf (lastLifecycle (runOf events subject)) = .changed ∧
      foldFields (runOf events subject) = []) ↔
      ¬ (runOf events subject).any (·.tells) = true := by
    rw [classOf_eq_changed_iff, lastLifecycle_eq_none_iff, foldFields_eq_nil_iff, ← forall₂_and]
    simp [tells]
  unfold objectChange subjectChange
  by_cases htells : (runOf events subject).any (·.tells) = true
  · rw [if_pos htells, if_neg]
    intro hboth
    simp only [Bool.and_eq_true, decide_eq_true_eq, List.isEmpty_iff] at hboth
    obtain ⟨hclass, hnil⟩ := hboth
    rw [if_pos hclass] at hnil
    exact hquiet.1 ⟨hclass, hnil⟩ htells
  · obtain ⟨hclass, hnil⟩ := hquiet.2 htells
    rw [if_neg htells, if_pos]
    simp only [hclass, hnil, if_pos, decide_true, List.isEmpty_nil, Bool.and_self]

end Runs

/-! ### The contract -/

section Contract

variable {powi : ℕ → UInt64} {debug : Value → String} {request : ChangesRequest} {finish : Int}
  {coverage : CoverageSummary} {events : List TemporalEvent} {subject other : SpatialRef}

/-- Whether a change is about an object rather than about a relation. -/
def TemporalChange.isAboutObject (change : TemporalChange) : Bool :=
  change.class' = .added || change.class' = .removed || change.class' = .changed

/-- Whether two references are to one object: by its spatial identity, where it has one. -/
def sameObject (one two : SpatialRef) : Bool :=
  one = two || (one.spatialId.isSome && one.spatialId = two.spatialId)

/-- The events of a window that are about an object, whatever it is called. -/
def eventsAbout (events : List TemporalEvent) (subject : SpatialRef) : List TemporalEvent :=
  events.filter fun event => !event.isRelation && event.subject.any (sameObject subject)

/-- The contract of an answer over the events of its window: one change for each object, each field
with the sides its first and last report give it, uncertain where a side was unobserved and left
out where both are equal, and each object of the class its last lifecycle event stands for. -/
structure ComparesHonestly (powi : ℕ → UInt64) (events : List TemporalEvent)
    (answer : List TemporalChange) : Prop where
  oneChange : ((answer.filter (·.isAboutObject)).filterMap (·.subject.spatialId)).Nodup
  sides : ∀ change ∈ answer, ∀ folded ∈ change.fieldChanges, ∃ first last,
    (reportsOf (eventsAbout events change.subject) folded.field).head? = some first ∧
      (reportsOf (eventsAbout events change.subject) folded.field).getLast? = some last ∧
      folded.before = first.before ∧ folded.after = last.after
  unobserved : ∀ change ∈ answer, ∀ folded ∈ change.fieldChanges,
    folded.before = none ∨ folded.after = none → folded.certainty = .unknown
  different : ∀ change ∈ answer, ∀ folded ∈ change.fieldChanges, ∀ before after,
    folded.before = some before → folded.after = some after → before.eq powi after = false
  lifecycle : ∀ change ∈ answer, change.isAboutObject →
    change.class' = classOf (lastLifecycle (eventsAbout events change.subject))
  reported : ∀ event ∈ events, event.isLifecycle → ∀ subject, event.subject = some subject →
    ∃ change ∈ answer, change.isAboutObject ∧ sameObject subject change.subject

/-- Any two events an answer tells of that are about one object call it by one reference. -/
def CalledAlike (events : List TemporalEvent) : Prop :=
  ∀ one ∈ events, ∀ two ∈ events, one.isRelation = false → two.isRelation = false →
    one.tells → two.tells → ∀ subject other, one.subject = some subject →
    two.subject = some other → sameObject subject other → subject = other

/-- No field of an object that stayed comes, from an observed side, to an unobserved one that is
told with certainty, or to an equal one. -/
def KnownAndDifferent (powi : ℕ → UInt64) (events : List TemporalEvent) : Prop :=
  ∀ event ∈ events, event.isRelation = false → ∀ subject, event.subject = some subject →
    lastLifecycle (eventsAbout events subject) = none → ∀ field first last,
    (reportsOf (eventsAbout events subject) field).head? = some first →
    (reportsOf (eventsAbout events subject) field).getLast? = some last →
    ∀ before, first.before = some before →
      (last.after = none → first.certainty = .unknown) ∧
        ∀ after, last.after = some after → before.eq powi after = false

/-! ### One object, one reference -/

theorem sameObject_self (subject : SpatialRef) : sameObject subject subject = true := by
  simp [sameObject]

theorem sameObject_congr (h : sameObject subject other = true) (third : SpatialRef) :
    sameObject subject third = sameObject other third := by
  rw [Bool.eq_iff_iff]
  simp only [sameObject, Bool.or_eq_true, Bool.and_eq_true, decide_eq_true_eq] at h ⊢
  rcases h with rfl | ⟨hsome, heq⟩
  · rfl
  · rw [heq]
    constructor
    · rintro (rfl | hthird)
      · exact .inr ⟨heq ▸ hsome, heq.symm⟩
      · exact .inr hthird
    · rintro (rfl | hthird)
      · exact .inr ⟨heq ▸ hsome, rfl⟩
      · exact .inr hthird

theorem sameObject_of_spatialId {id : SpatialId} (hone : subject.spatialId = some id)
    (htwo : other.spatialId = some id) : sameObject subject other = true := by
  simp [sameObject, hone, htwo]

theorem eventsAbout_congr (h : sameObject subject other = true) :
    eventsAbout events subject = eventsAbout events other := by
  unfold eventsAbout
  congr 1
  funext event
  congr 2
  funext third
  exact sameObject_congr h third

theorem flatMap_filter_congr {α β : Type} {items : List α} {f : α → List β} {p q : α → Bool}
    (h : ∀ item ∈ items, f item ≠ [] → p item = q item) :
    (items.filter p).flatMap f = (items.filter q).flatMap f := by
  induction items with
  | nil => rfl
  | cons item items ih =>
    rw [forall_mem_cons] at h
    by_cases hnil : f item = []
    · by_cases hp : p item = true <;> by_cases hq : q item = true <;> simp [hp, hq, hnil, ih h.2]
    · have hsame := h.1 hnil
      by_cases hp : p item = true <;> simp [hp, ← hsame, ih h.2]

/-- Where objects are called alike, the run of a reference that tells of something holds all that
is told of its object. -/
theorem runOf_tells (hcalled : CalledAlike events) (hevent : event ∈ runOf events subject)
    (htells : event.tells) :
    (∀ field, reportsOf (runOf events subject) field =
        reportsOf (eventsAbout events subject) field) ∧
      lastLifecycle (runOf events subject) = lastLifecycle (eventsAbout events subject) := by
  obtain ⟨hmem, hobject, hsubject⟩ := mem_runOf.1 hevent
  have hsame : ∀ found ∈ events, found.tells →
      (!found.isRelation && decide (found.subject = some subject)) =
        (!found.isRelation && found.subject.any (sameObject subject)) := by
    intro found hfound htold
    cases hrelation : found.isRelation
    · cases hcall : found.subject with
      | none => rfl
      | some other =>
        rw [Bool.eq_iff_iff]
        simp only [Bool.not_false, Bool.true_and, decide_eq_true_eq, Option.some.injEq,
          Option.any_some]
        constructor
        · rintro rfl
          exact sameObject_self _
        · exact fun hsame => (hcalled event hmem found hfound hobject hrelation htells htold subject
            other hsubject hcall hsame).symm
    · rfl
  constructor
  · intro field
    refine congrArg (filter _) (flatMap_filter_congr fun found hfound hne => ?_)
    exact hsame found hfound (by simp [tells, hne])
  · have hfind : ∀ run : List TemporalEvent, run.reverse.find? (·.isLifecycle) =
        (run.flatMap fun found => if found.isLifecycle then [found] else []).getLast? := by
      intro run
      have hfilter : (run.flatMap fun found => if found.isLifecycle then [found] else []) =
          run.filter (·.isLifecycle) := by
        induction run with
        | nil => rfl
        | cons found run ih => by_cases hl : found.isLifecycle = true <;> simp [hl, ih]
      rw [hfilter, ← head?_reverse, ← filter_reverse, head?_filter]
    rw [lastLifecycle, lastLifecycle, hfind, hfind, runOf, eventsAbout]
    refine congrArg (fun found => (getLast? found).map _)
      (flatMap_filter_congr fun found hfound hne => hsame found hfound ?_)
    unfold tells
    by_cases hl : found.isLifecycle = true
    · rw [hl, Bool.true_or]
    · exact absurd (if_neg hl) hne

/-! ### What the answer holds -/

/-- Whether the run of a reference tells of something. -/
def isTold (events : List TemporalEvent) (subject : SpatialRef) : Bool :=
  (runOf events subject).any (·.tells)

theorem isTold_iff : isTold events subject = true ↔
    ∃ event ∈ events, event.isRelation = false ∧ event.subject = some subject ∧ event.tells := by
  simp only [isTold, any_eq_true, mem_runOf]
  exact ⟨fun ⟨event, ⟨hmem, hobject, hsubject⟩, htells⟩ => ⟨event, hmem, hobject, hsubject, htells⟩,
    fun ⟨event, hmem, hobject, hsubject, htells⟩ => ⟨event, ⟨hmem, hobject, hsubject⟩, htells⟩⟩

theorem isAboutObject_subjectChange :
    (subjectChange debug request finish coverage events subject).isAboutObject = true := by
  have hclass : ∀ kind, classOf kind = .added ∨ classOf kind = .removed ∨ classOf kind = .changed := by
    intro kind
    unfold classOf
    split
    · exact .inl rfl
    · exact .inr (.inl rfl)
    · exact .inr (.inr rfl)
  simp only [TemporalChange.isAboutObject, Bool.or_eq_true, decide_eq_true_eq, or_assoc]
  exact hclass (lastLifecycle (runOf events subject))

theorem of_relationChange_eq_some {change : TemporalChange}
    (h : relationChange debug request finish coverage event = some change) :
    change.fieldChanges = [] ∧ change.isAboutObject = false := by
  simp only [relationChange, Option.bind_eq_bind, Option.bind_eq_some_iff, Option.some.injEq] at h
  obtain ⟨class', hclass, from', -, to', -, rfl⟩ := h
  refine ⟨rfl, ?_⟩
  unfold relationClass at hclass
  split at hclass
  · obtain rfl := Option.some.inj hclass
    rfl
  · obtain rfl := Option.some.inj hclass
    rfl
  · cases hclass

/-- The references of the events of a window, each once. -/
def subjectsOf (events : List TemporalEvent) : List SpatialRef :=
  (firstKept (fun entry => entry.1) (subjectEvents events)).map (·.1)

theorem nodup_subjectsOf (events : List TemporalEvent) : (subjectsOf events).Nodup :=
  nodup_map_firstKept _ _

theorem mem_subjectsOf (h : isTold events subject = true) : subject ∈ subjectsOf events := by
  obtain ⟨event, hmem, hobject, hsubject, -⟩ := isTold_iff.1 h
  have hentry : (subject, event) ∈ subjectEvents events :=
    mem_filterMap.2 ⟨event, hmem, by simp [hobject, hsubject]⟩
  obtain ⟨known, hknown, hkey⟩ := exists_mem_firstKept (fun entry => entry.1) hentry
  exact mem_map.2 ⟨known, hknown, hkey⟩

theorem filterMap_objectChange :
    (groupBySubject events).filterMap (objectChange debug request finish coverage) =
      (subjectsOf events).filterMap fun subject =>
        if isTold events subject then
          some (subjectChange debug request finish coverage events subject)
        else none := by
  rw [groupBySubject_eq, subjectsOf, filterMap_map, filterMap_map]
  refine filterMap_congr fun known _ => ?_
  exact objectChange_eq

/-- **What the answer holds of the objects.** -/
theorem mem_changesOf_iff {change : TemporalChange} :
    change ∈ changesOf debug request finish coverage events ↔
      (∃ event ∈ events, relationChange debug request finish coverage event = some change) ∨
        ∃ subject, isTold events subject = true ∧
          subjectChange debug request finish coverage events subject = change := by
  rw [changesOf, mem_insertionSort, mem_append, mem_filterMap,
    filterMap_objectChange, mem_filterMap]
  refine or_congr_right ?_
  constructor
  · rintro ⟨subject, -, hchange⟩
    split_ifs at hchange with htold
    exact ⟨subject, htold, Option.some.inj hchange⟩
  · rintro ⟨subject, htold, rfl⟩
    exact ⟨subject, mem_subjectsOf htold, if_pos htold⟩

/-- Exactly where objects are called alike no object has two changes. -/
theorem nodup_iff_calledAlike :
    (((changesOf debug request finish coverage events).filter (·.isAboutObject)).filterMap
      (·.subject.spatialId)).Nodup ↔ CalledAlike events := by
  have hids : (((changesOf debug request finish coverage events).filter
      (·.isAboutObject)).filterMap (·.subject.spatialId)).Perm
      ((subjectsOf events).filterMap fun subject =>
        if isTold events subject then subject.spatialId else none) := by
    have hperm := (perm_insertionSort (fun a b : TemporalChange => a.key ≤ b.key)
      (events.filterMap (relationChange debug request finish coverage) ++
        (groupBySubject events).filterMap (objectChange debug request finish coverage))).filter
      (·.isAboutObject)
    refine (hperm.filterMap _).trans (Perm.of_eq ?_)
    have hrelations : (events.filterMap (relationChange debug request finish coverage)).filter
        (·.isAboutObject) = [] := by
      refine filter_eq_nil_iff.2 fun change hchange => ?_
      obtain ⟨event, -, hsome⟩ := mem_filterMap.1 hchange
      simp [(of_relationChange_eq_some hsome).2]
    have hobjects : ∀ change ∈ (subjectsOf events).filterMap fun subject =>
        if isTold events subject then
          some (subjectChange debug request finish coverage events subject)
        else none, change.isAboutObject = true := by
      intro change hchange
      obtain ⟨subject, -, hsome⟩ := mem_filterMap.1 hchange
      split_ifs at hsome
      exact Option.some.inj hsome ▸ isAboutObject_subjectChange
    rw [filter_append, hrelations, nil_append, filterMap_objectChange,
      filter_eq_self.2 hobjects, filterMap_filterMap]
    refine filterMap_congr fun subject _ => ?_
    by_cases htold : isTold events subject = true
    · rw [if_pos htold, if_pos htold]
      rfl
    · rw [if_neg htold, if_neg htold]
      rfl
  rw [hids.nodup_iff, Nodup, pairwise_filterMap]
  constructor
  · intro hapart one hone two htwo hobject hobject' htells htells' subject other hsubject hother
      hsame
    by_contra hne
    have htold : isTold events subject = true := isTold_iff.2 ⟨one, hone, hobject, hsubject, htells⟩
    have htold' : isTold events other = true := isTold_iff.2 ⟨two, htwo, hobject', hother, htells'⟩
    simp only [sameObject, hne, decide_false, Bool.false_or, Bool.and_eq_true,
      decide_eq_true_eq, Option.isSome_iff_exists] at hsame
    obtain ⟨⟨id, hid⟩, heq⟩ := hsame
    have hsymm : Std.Symm fun subject other : SpatialRef => ∀ id,
        (if isTold events subject then subject.spatialId else none) = some id → ∀ id',
        (if isTold events other then other.spatialId else none) = some id' → id ≠ id' :=
      ⟨fun _ _ hapart id hid id' hid' => (hapart id' hid' id hid).symm⟩
    refine hapart.forall (mem_subjectsOf htold) (mem_subjectsOf htold') hne id ?_ id ?_ rfl
    · rw [if_pos htold, hid]
    · rw [if_pos htold', ← heq, hid]
  · intro hcalled
    refine (nodup_subjectsOf events).imp ?_
    rintro subject other hne id hid id' hid' rfl
    split_ifs at hid hid' with htold htold'
    obtain ⟨one, hone, hobject, hsubject, htells⟩ := isTold_iff.1 htold
    obtain ⟨two, htwo, hobject', hother, htells'⟩ := isTold_iff.1 htold'
    exact hne (hcalled one hone two htwo hobject hobject' htells htells' subject other hsubject
      hother (sameObject_of_spatialId hid hid'))

theorem foldedOf_eq {reports : List FieldChange} {first last : FieldChange}
    (hfirst : reports.head? = some first) (hlast : reports.getLast? = some last) :
    foldedOf reports =
      ⟨first.field, first.before, last.after, certaintyOf first.before first.certainty⟩ := by
  cases reports with
  | nil => cases hfirst
  | cons head rest =>
    obtain rfl := Option.some.inj hfirst
    have hgetD : rest.getLast?.getD head = last := by
      rw [getLast?_cons] at hlast
      exact Option.some.inj hlast
    rw [foldedOf, hgetD]

/-- The fields of a told subject's change, over the reports about its object. -/
theorem mem_fieldChanges_iff (hcalled : CalledAlike events) (htold : isTold events subject = true)
    {folded : FieldChange} :
    folded ∈ (subjectChange debug request finish coverage events subject).fieldChanges ↔
      lastLifecycle (eventsAbout events subject) = none ∧
        ∃ first last, (reportsOf (eventsAbout events subject) folded.field).head? = some first ∧
          (reportsOf (eventsAbout events subject) folded.field).getLast? = some last ∧
          folded = ⟨first.field, first.before, last.after,
            certaintyOf first.before first.certainty⟩ := by
  obtain ⟨event, hevent, htells⟩ := any_eq_true.1 htold
  obtain ⟨hreports, hlifecycle⟩ := runOf_tells hcalled hevent htells
  have hfields : folded ∈ (subjectChange debug request finish coverage events subject).fieldChanges ↔
      lastLifecycle (eventsAbout events subject) = none ∧
        folded ∈ foldFields (runOf events subject) := by
    rw [← hlifecycle, ← classOf_eq_changed_iff, subjectChange, buildChange]
    by_cases hclass : classOf (lastLifecycle (runOf events subject)) = .changed
    · simp [hclass]
    · simp [hclass]
  rw [hfields, mem_foldFields_iff, hreports]
  refine and_congr_right fun _ => ?_
  constructor
  · rintro ⟨hne, hfolded⟩
    obtain ⟨first, rest, hsplit⟩ := exists_cons_of_ne_nil hne
    have hfirst : (reportsOf (eventsAbout events subject) folded.field).head? = some first := by
      rw [hsplit, head?_cons]
    have hlast := getLast?_eq_some_getLast hne
    exact ⟨first, _, hfirst, hlast, hfolded.trans (foldedOf_eq hfirst hlast)⟩
  · rintro ⟨first, last, hfirst, hlast, hfolded⟩
    exact ⟨fun hnil => by simp [hnil] at hfirst, hfolded.trans (foldedOf_eq hfirst hlast).symm⟩

/-- **The windows whose answer is honest.** -/
theorem comparesHonestly_changesOf_iff :
    ComparesHonestly powi events (changesOf debug request finish coverage events) ↔
      CalledAlike events ∧ KnownAndDifferent powi events := by
  constructor
  · intro hhonest
    have hcalled := nodup_iff_calledAlike.1 hhonest.oneChange
    refine ⟨hcalled, ?_⟩
    intro event _ _ subject _ hlifecycle field first last hfirst hlast before hbefore
    -- The first report belongs to an event about the same object, whose run comes to a change.
    obtain ⟨hreport, hfield⟩ := mem_filter.1 (mem_of_mem_head? hfirst)
    obtain rfl := of_decide_eq_true hfield
    obtain ⟨found, hfound, hchange⟩ := mem_flatMap.1 hreport
    simp only [eventsAbout, mem_filter, Bool.and_eq_true, Bool.not_eq_true',
      Option.any_eq_true] at hfound
    obtain ⟨hmem, hobject, other, hother, hsame⟩ := hfound
    have htold : isTold events other = true := isTold_iff.2
      ⟨found, hmem, hobject, hother, by simp [TemporalEvent.tells, ne_nil_of_mem hchange]⟩
    have hanswer : subjectChange debug request finish coverage events other ∈
        changesOf debug request finish coverage events :=
      mem_changesOf_iff.2 (.inr ⟨other, htold, rfl⟩)
    have hfolded : (⟨first.field, first.before, last.after,
        certaintyOf first.before first.certainty⟩ : FieldChange) ∈
        (subjectChange debug request finish coverage events other).fieldChanges := by
      rw [mem_fieldChanges_iff hcalled htold, ← eventsAbout_congr hsame]
      exact ⟨hlifecycle, first, last, hfirst, hlast, rfl⟩
    refine ⟨fun hnone => ?_, fun after hafter => ?_⟩
    · have hunknown := hhonest.unobserved _ hanswer _ hfolded (.inr hnone)
      simpa [certaintyOf, hbefore] using hunknown
    · exact hhonest.different _ hanswer _ hfolded before after hbefore hafter
  · rintro ⟨hcalled, hknown⟩
    have hfields : ∀ change ∈ changesOf debug request finish coverage events,
        ∀ folded ∈ change.fieldChanges, ∃ subject event, event ∈ events ∧
          event.isRelation = false ∧ event.subject = some subject ∧ change.subject = subject ∧
          lastLifecycle (eventsAbout events subject) = none ∧ ∃ first last,
            (reportsOf (eventsAbout events subject) folded.field).head? = some first ∧
            (reportsOf (eventsAbout events subject) folded.field).getLast? = some last ∧
            folded = ⟨first.field, first.before, last.after,
              certaintyOf first.before first.certainty⟩ := by
      intro change hchange folded hfolded
      rcases mem_changesOf_iff.1 hchange with ⟨event, -, hrelation⟩ | ⟨subject, htold, rfl⟩
      · rw [(of_relationChange_eq_some hrelation).1] at hfolded
        exact absurd hfolded not_mem_nil
      · obtain ⟨event, hmem, hobject, hsubject, -⟩ := isTold_iff.1 htold
        exact ⟨subject, event, hmem, hobject, hsubject, rfl,
          (mem_fieldChanges_iff hcalled htold).1 hfolded⟩
    refine ⟨nodup_iff_calledAlike.2 hcalled, fun change hchange folded hfolded => ?_,
      fun change hchange folded hfolded hnone => ?_,
      fun change hchange folded hfolded before after hbefore hafter => ?_,
      fun change hchange habout => ?_, fun event hevent hcame subject hsubject => ?_⟩
    · obtain ⟨subject, event, hmem, hobject, hsubject, rfl, hlifecycle, first, last, hfirst, hlast,
        heq⟩ := hfields change hchange folded hfolded
      exact ⟨first, last, hfirst, hlast, by rw [heq], by rw [heq]⟩
    · obtain ⟨subject, event, hmem, hobject, hsubject, rfl, hlifecycle, first, last, hfirst, hlast,
        heq⟩ := hfields change hchange folded hfolded
      rw [heq] at hnone ⊢
      cases hbefore : first.before with
      | none => rfl
      | some before =>
        have hafter : last.after = none := hnone.resolve_left (by simp [hbefore])
        exact (hknown event hmem hobject _ hsubject hlifecycle _ first last hfirst hlast before
          hbefore).1 hafter
    · obtain ⟨subject, event, hmem, hobject, hsubject, rfl, hlifecycle, first, last, hfirst, hlast,
        heq⟩ := hfields change hchange folded hfolded
      rw [heq] at hbefore hafter
      exact (hknown event hmem hobject _ hsubject hlifecycle _ first last hfirst hlast before
        hbefore).2 after hafter
    · rcases mem_changesOf_iff.1 hchange with ⟨event, -, hrelation⟩ | ⟨subject, htold, rfl⟩
      · rw [(of_relationChange_eq_some hrelation).2] at habout
        cases habout
      · obtain ⟨event, hevent, htells⟩ := any_eq_true.1 htold
        show classOf (lastLifecycle (runOf events subject)) =
          classOf (lastLifecycle (eventsAbout events subject))
        rw [(runOf_tells hcalled hevent htells).2]
    · have hobject : event.isRelation = false := by
        simp only [isLifecycle, Bool.or_eq_true, decide_eq_true_eq] at hcame
        rcases hcame with heq | heq <;> simp [isRelation, heq]
      have htold : isTold events subject = true := isTold_iff.2
        ⟨event, hevent, hobject, hsubject, by simp [tells, hcame]⟩
      exact ⟨_, mem_changesOf_iff.2 (.inr ⟨subject, htold, rfl⟩), isAboutObject_subjectChange,
        sameObject_self subject⟩

/-- **The answers that are honest.** Whatever the ledger and the request, the answer before the
limit compares the two ends of the window honestly exactly where no object of the window is called
by two references and no field of an object that stayed comes to an unobserved side that is told
with certainty or to an equal one. -/
theorem comparesHonestly_iff {ledger : LedgerRead} {coordinate : Int} {answer : List TemporalChange}
    (hevents : windowEvents ledger request coordinate = .ok events)
    (hanswer : compared debug ledger request coordinate = .ok answer) :
    ComparesHonestly powi events answer ↔ CalledAlike events ∧ KnownAndDifferent powi events := by
  unfold compared at hanswer
  rw [hevents] at hanswer
  cases hcoverage : ledger.coverage
      { scope := some request.scope
        capabilities := []
        range := .between request.since (request.finish coordinate) } with
  | error error => simp [hcoverage, Bind.bind, Except.bind] at hanswer
  | ok intervals =>
    simp only [hcoverage, Bind.bind, Except.bind, Pure.pure, Except.pure, Except.ok.injEq] at hanswer
    rw [← hanswer]
    exact comparesHonestly_changesOf_iff

end Contract

/-! ### A side nothing observed -/

/-- A service went from active to a state nothing observed. -/
def stateLost (reported : ChangeCertainty) : TemporalEvent :=
  { History.eventAt ⟨"e1", Eq.refl true⟩ 1 with
    kind := .objectChanged
    subject := some (.resolved ⟨"svc"⟩ ⟨"service"⟩ "nginx.service")
    changedFields := [⟨"active_state", some (.string "active"), none, reported⟩] }

/-- A ledger that holds some events. -/
def holding (events : List TemporalEvent) : LedgerRead where
  events := fun _ => .ok events
  coverage := fun _ => .ok []

/-- What changed in the first second. -/
def firstSecond : ChangesRequest where
  scope := fallbackScope
  subjects := []
  since := 0
  until' := some 1000000000
  limit := 500

theorem not_comparesHonestly_stateLost : ∃ answer,
    windowEvents (holding [stateLost .observed]) firstSecond 0 = .ok [stateLost .observed] ∧
      compared (fun _ => "") (holding [stateLost .observed]) firstSecond 0 = .ok answer ∧
      ¬ ComparesHonestly (fun _ => 0) [stateLost .observed] answer := by
  refine ⟨_, rfl, rfl, fun h => ?_⟩
  let report : FieldChange := ⟨"active_state", some (.string "active"), none, .observed⟩
  have hknown := (comparesHonestly_changesOf_iff.1 h).2 (stateLost .observed) mem_cons_self rfl
    _ rfl rfl "active_state" report report rfl rfl (.string "active") rfl
  exact absurd (hknown.1 rfl) (by decide)

/-- A service came from one state to another. -/
def stateMoved (id : EventId) (instant : Int) (before after : String) : TemporalEvent :=
  { stateLost .observed with
    eventId := id
    times := (History.eventAt id instant).times
    changedFields := [⟨"active_state", some (.string before), some (.string after), .observed⟩] }

/-- A service comes up in two steps, and a timer to a state of which the source itself says that it
does not know it. -/
def cameUp : List TemporalEvent :=
  [stateMoved ⟨"e1", Eq.refl true⟩ 1 "inactive" "activating",
    stateMoved ⟨"e2", Eq.refl true⟩ 2 "activating" "active",
    { stateLost .unknown with
      eventId := ⟨"e3", Eq.refl true⟩
      subject := some (.resolved ⟨"tmr"⟩ ⟨"timer"⟩ "logrotate.timer")
      times := (History.eventAt ⟨"e3", Eq.refl true⟩ 3).times }]

theorem reportsOf_cameUp {subject : SpatialRef} (reports : List FieldChange)
    (h : (eventsAbout cameUp subject).flatMap (·.changedFields) = reports)
    (hfield : ∀ report ∈ reports, report.field = "active_state") {field : String}
    {first : FieldChange}
    (hfirst : (reportsOf (eventsAbout cameUp subject) field).head? = some first) :
    reportsOf (eventsAbout cameUp subject) field = reports := by
  rw [reportsOf, h] at hfirst ⊢
  have hmem := mem_filter.1 (mem_of_mem_head? hfirst)
  have heq : first.field = field := of_decide_eq_true hmem.2
  rw [hfield first hmem.1] at heq
  exact filter_eq_self.2 fun report hreport => decide_eq_true ((hfield report hreport).trans heq)

/-- The two steps are told as one, and nothing is overstated. -/
theorem comparesHonestly_cameUp : ∃ answer,
    compared (fun _ => "") (holding cameUp) firstSecond 0 = .ok answer ∧
      ComparesHonestly (fun _ => 0) cameUp answer := by
  have hevents : windowEvents (holding cameUp) firstSecond 0 = .ok cameUp := rfl
  obtain ⟨answer, hanswer⟩ : ∃ answer,
      compared (fun _ => "") (holding cameUp) firstSecond 0 = .ok answer := ⟨_, rfl⟩
  refine ⟨answer, hanswer, (comparesHonestly_iff hevents hanswer).2 ⟨?_, ?_⟩⟩
  · intro one hone two htwo _ _ _ _ subject other hsubject hother hsame
    simp only [cameUp, mem_cons, not_mem_nil, or_false] at hone htwo
    rcases hone with rfl | rfl | rfl <;> rcases htwo with rfl | rfl | rfl <;> cases hsubject <;>
      cases hother <;> first | rfl | exact absurd hsame (by decide)
  · intro event hevent _ subject hsubject _ field first last hfirst hlast before hbefore
    simp only [cameUp, mem_cons, not_mem_nil, or_false] at hevent
    have hservice : subject = .resolved ⟨"svc"⟩ ⟨"service"⟩ "nginx.service" ∨
        subject = .resolved ⟨"tmr"⟩ ⟨"timer"⟩ "logrotate.timer" := by
      rcases hevent with rfl | rfl | rfl <;> cases hsubject <;> simp
    rcases hservice with rfl | rfl
    · have hreports := reportsOf_cameUp
        [⟨"active_state", some (.string "inactive"), some (.string "activating"), .observed⟩,
          ⟨"active_state", some (.string "activating"), some (.string "active"), .observed⟩] rfl
        (by simp) hfirst
      rw [hreports] at hfirst hlast
      cases hfirst
      cases hlast
      cases hbefore
      exact ⟨fun hafter => (by cases hafter), fun after hafter => by cases hafter; rfl⟩
    · have hreports := reportsOf_cameUp
        [⟨"active_state", some (.string "active"), none, .unknown⟩] rfl (by simp) hfirst
      rw [hreports] at hfirst hlast
      cases hfirst
      cases hlast
      exact ⟨fun _ => rfl, fun after hafter => by cases hafter⟩

end OnoSendai.Temporal
