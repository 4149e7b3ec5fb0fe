import OnoSendai.Spatial.Accounts
import OnoSendai.Spatial.Bridge

/-!
# What becomes of an assertion

The bridge keeps its own table of keys, and nothing takes a place out of it that the index forgets.
A reference to such a key makes an edge to a place that is gone, and is not kept for the place that
may carry the key next. Where every reference a batch settles leads to a place the index holds, no
edge dangles and no assertion is lost.
-/

namespace OnoSendai.Spatial

open Interaction List SpatialIndex RelationshipEdge Pass ProviderBridge Prod

/-! ### Keys -/

/-- Whether a reference of a kind may be answered by a place of another. -/
def answers (kind other : SpatialType) : Bool :=
  other == kind || kind.generalisesTo == some other ||
    (other ∈ SpatialType.all && other.isA kind && other != kind)

namespace KeyTable

variable {keys : KeyTable} {kind : SpatialType} {key : String} {id : SpatialId}

/-- The place whose record carried a key last, among those that may answer a reference. -/
def latest (keys : KeyTable) (kind : SpatialType) (key : String) : Option SpatialId :=
  (keys.find? fun entry => entry.1.2 == key && answers kind entry.1.1).map snd

theorem resolve_eq_none_iff : keys.resolve kind key = none ↔
    ∀ other, answers kind other = true → keys.lookup (other, key) = none := by
  simp only [resolve, Option.or_eq_none_iff, Option.bind_eq_none_iff, findSome?_eq_none_iff,
    mem_filter, answers, Bool.or_eq_true, Bool.and_eq_true, beq_iff_eq, decide_eq_true_eq]
  constructor
  · rintro ⟨hown, hgeneral, hspecial⟩ other ((rfl | hother) | hother)
    · exact hown
    · exact hgeneral other hother
    · exact hspecial other ⟨hother.1.1, hother.1.2, hother.2⟩
  · intro hnone
    exact ⟨hnone kind (.inl (.inl rfl)), fun other hother => hnone other (.inl (.inr hother)),
      fun other hother => hnone other (.inr ⟨⟨hother.1, hother.2.1⟩, hother.2.2⟩)⟩

theorem latest_eq_none_iff : keys.latest kind key = none ↔ keys.resolve kind key = none := by
  rw [latest, Option.map_eq_none_iff, find?_eq_none, resolve_eq_none_iff]
  simp only [lookup_eq_none_iff, Bool.and_eq_true, beq_iff_eq, not_and, bne_iff_ne, ne_eq]
  constructor
  · intro hnone other hanswers entry hentry heq
    refine hnone entry hentry (congrArg snd heq).symm ?_
    rw [← congrArg fst heq]
    exact hanswers
  · intro hnone entry hentry hkey hanswers
    exact hnone entry.1.1 hanswers entry hentry (Prod.ext rfl hkey.symm)

theorem mem_of_lookup {other : SpatialType} (h : keys.lookup (other, key) = some id) :
    ∃ entry ∈ keys, entry.2 = id := by
  induction keys with
  | nil => cases h
  | cons first rest ih =>
    rw [lookup_cons] at h
    split at h
    · exact ⟨first, mem_cons_self, Option.some.inj h⟩
    · obtain ⟨entry, hentry, hid⟩ := ih h
      exact ⟨entry, mem_cons_of_mem _ hentry, hid⟩

theorem mem_of_resolve (h : keys.resolve kind key = some id) : ∃ entry ∈ keys, entry.2 = id := by
  rw [resolve, Option.or_eq_some_iff, Option.or_eq_some_iff] at h
  rcases h with hown | ⟨-, hgeneral | ⟨-, hspecial⟩⟩
  · exact mem_of_lookup hown
  · obtain ⟨general, -, hgeneral⟩ := Option.bind_eq_some_iff.1 hgeneral
    exact mem_of_lookup hgeneral
  · obtain ⟨special, -, hspecial⟩ := exists_of_findSome?_eq_some hspecial
    exact mem_of_lookup hspecial

end KeyTable

/-! ### What the passes keep -/

namespace SpatialIndex

variable {geography : Geography} {index : SpatialIndex} {place : SpatialId}

theorem contains_register {object : SpatialObject} {instant : Int}
    (h : index.contains place = true) :
    (index.register geography object instant).2.contains place = true := by
  rcases register_cases geography object instant index with
    ⟨_, _, _, heq⟩ | ⟨-, ⟨_, _, heq⟩ | ⟨-, heq⟩⟩
  · rw [heq]
    exact h
  · rw [heq, contains_modify]
    exact h
  · rw [heq, contains, get_withEntry]
    split_ifs
    · rfl
    · exact h

/-- A registration that is not refused keeps what is held, and leaves its place held. -/
theorem contains_registered {object : SpatialObject} {instant : Int} {registration : Registration}
    {after : SpatialIndex}
    (h : index.register geography object instant = (.ok registration, after)) :
    (∀ place, index.contains place = true → after.contains place = true) ∧
      after.contains object.spatialId = true := by
  refine ⟨fun place hplace => ?_, ?_⟩
  · have hregister := @contains_register geography index place object instant hplace
    rwa [h] at hregister
  rcases register_cases geography object instant index with
    ⟨_, _, _, heq⟩ | ⟨-, ⟨entry, hentry, heq⟩ | ⟨-, heq⟩⟩
  · rw [h] at heq
    cases heq
  · rw [h] at heq
    obtain rfl : after = _ := congrArg snd heq
    rw [contains_modify, contains, get_named, hentry]
    rfl
  · rw [h] at heq
    obtain rfl : after = _ := congrArg snd heq
    rw [contains, get_withEntry, if_pos rfl]
    rfl

theorem contains_addAlias (id : SpatialId) (name : String) :
    (index.addAlias id name).2.contains place = index.contains place :=
  (mapsTo_addAlias id name).contains place

theorem contains_recordEdge (edge : RelationshipEdge) :
    (index.recordEdge geography edge).contains place = index.contains place :=
  (mapsTo_recordEdge edge).contains place

theorem contains_foldl_recordEdge (edges : List RelationshipEdge) :
    (edges.foldl (fun index edge => index.recordEdge geography edge) index).contains place =
      index.contains place := by
  induction edges generalizing index with
  | nil => rfl
  | cons first rest ih => rw [foldl_cons, ih, contains_recordEdge]

theorem contains_setPathParent {child parent : SpatialId} :
    (index.setPathParent geography child parent).2.contains place = index.contains place := by
  rcases setPathParent_cases geography child parent index with ⟨heq, -⟩ | ⟨-, -, -, heq⟩
  · rw [heq]
  · rw [heq, contains_modify]

end SpatialIndex

/-- What a batch has done so far, from where it started: the places held are still held, and each
new key names, and each new assertion is about, a place that is held. -/
structure Pass.From (start pass : Pass) : Prop where
  held : ∀ place, start.index.contains place = true → pass.index.contains place = true
  keys : ∀ entry ∈ pass.keys, entry ∈ start.keys ∨ pass.index.contains entry.2 = true
  facts : ∀ fact ∈ pass.facts, fact ∈ start.facts ∨ pass.index.contains fact.subject = true

namespace Pass

variable {reader : Reader} {instant : Int} {start pass : Pass}

theorem From.refl (start : Pass) : start.From start :=
  ⟨fun _ h => h, fun _ h => .inl h, fun _ h => .inl h⟩

theorem From.grow (h : start.From pass) {after : Pass} (hkeys : after.keys = pass.keys)
    (hfacts : after.facts = pass.facts)
    (hheld : ∀ place, pass.index.contains place = true → after.index.contains place = true) :
    start.From after where
  held place hplace := hheld place (h.held place hplace)
  keys entry hentry := (h.keys entry (hkeys ▸ hentry)).imp_right (hheld _)
  facts fact hfact := (h.facts fact (hfacts ▸ hfact)).imp_right (hheld _)

end Pass

namespace Reader

variable {reader : Reader} {subject : SpatialId} {record : RecordValue} {facts : List Fact}

/-- What is asserted is asserted of the place. -/
def About (subject : SpatialId) (facts : List Fact) : Prop :=
  ∀ fact ∈ facts, fact.subject = subject

theorem about_nil : About subject [] := fun _ h => absurd h not_mem_nil

theorem about_push (relation : String) (subjectIsSource : Bool) (far : FarEnd)
    (confidence : Confidence) (attributes : MapValue) :
    About subject
      (reader.push subject record relation subjectIsSource far confidence attributes) := by
  intro fact hfact
  rw [push] at hfact
  split at hfact
  · rw [mem_singleton.1 hfact]
  · exact absurd hfact not_mem_nil

theorem about_reading {field label : String} (h : About subject facts) :
    About subject (reading subject record field label facts).facts := by
  rw [reading]
  split
  · exact about_nil
  · exact h

theorem about_relate (field label : String) (farType : SpatialType) (relation : String)
    (subjectIsSource : Bool) :
    About subject
      (reader.relate subject record field label farType relation subjectIsSource).facts := by
  refine about_reading ?_
  split
  · exact about_push _ _ _ _ _
  · exact about_nil

theorem about_cgroupFacts (path : String) :
    About subject (reader.cgroupFacts subject record path) := by
  intro fact hfact
  rw [cgroupFacts, mem_append] at hfact
  rcases hfact with hfact | hfact
  · exact about_push _ _ _ _ _ fact hfact
  · split at hfact
    · exact about_push _ _ _ _ _ fact hfact
    · exact absurd hfact not_mem_nil

theorem about_socket (connection : Bool) :
    ∀ assertion ∈ assertionsOf.socket reader subject record connection,
      About subject assertion.facts := by
  simp only [assertionsOf.socket, forall_mem_cons, not_mem_nil, false_implies,
    implies_true, and_true]
  refine ⟨about_relate _ _ _ _ _, ?_, about_reading ?_⟩
  · intro fact hfact
    split_ifs at hfact
    · rcases hname : reader.endpointName record "local" with _ | endpoint
      · rw [hname] at hfact
        exact absurd hfact not_mem_nil
      · rw [hname] at hfact
        obtain ⟨key, -, hkey⟩ := mem_flatMap.1 hfact
        exact about_push _ _ _ _ _ fact hkey
    · exact absurd hfact not_mem_nil
  · split
    · exact about_push _ _ _ _ _
    · exact about_nil

/-- Every assertion of a record is about its own place. -/
theorem about_factsOf (kind : SpatialType) :
    About subject (reader.factsOf subject record kind).facts := by
  have hall : ∀ assertion ∈ reader.assertionsOf subject record kind,
      About subject assertion.facts := by
    cases kind
    case process =>
      simp only [assertionsOf, forall_mem_cons, not_mem_nil, false_implies,
        implies_true, and_true]
      refine ⟨about_relate _ _ _ _ _, about_relate _ _ _ _ _, about_relate _ _ _ _ _,
        about_relate _ _ _ _ _, about_reading ?_, about_reading ?_, about_reading ?_⟩
      · split
        · exact about_push _ _ _ _ _
        · exact about_nil
      · split
        · exact about_cgroupFacts _
        · exact about_nil
      · intro fact hfact
        obtain ⟨path, -, hpath⟩ := mem_flatMap.1 hfact
        exact about_push _ _ _ _ _ fact hpath
    case filesystem =>
      simp only [assertionsOf, forall_mem_cons, not_mem_nil, false_implies,
        implies_true, and_true]
      constructor <;> refine about_reading ?_ <;> split
      · exact about_push _ _ _ _ _
      · exact about_nil
      · exact about_push _ _ _ _ _
      · exact about_nil
    case mount =>
      simp only [assertionsOf, forall_mem_cons, not_mem_nil, false_implies,
        implies_true, and_true]
      refine about_reading ?_
      split
      · exact about_push _ _ _ _ _
      · exact about_nil
    case socket => exact about_socket _
    case listener => exact about_socket _
    case connection => exact about_socket _
    all_goals
      simp only [assertionsOf, forall_mem_cons, not_mem_nil, false_implies,
        implies_true, and_true, about_relate]
  intro fact hfact
  obtain ⟨assertion, hassertion, hmem⟩ := mem_flatMap.1 hfact
  exact hall assertion hassertion fact hmem

end Reader

namespace Pass

variable {reader : Reader} {instant : Int} {start pass : Pass}

theorem From.read (h : start.From pass) {kind : SpatialType} {record : RecordValue}
    {id : SpatialId} (hid : pass.index.contains id = true) :
    start.From (pass.read reader kind record id) := by
  have hnamed (names : List String) (index : SpatialIndex) (place : SpatialId) :
      (names.foldl (fun index name => (index.addAlias id name).2) index).contains place =
        index.contains place := by
    induction names generalizing index with
    | nil => rfl
    | cons first rest ih => rw [foldl_cons, ih, contains_addAlias]
  have hwithheld (refusals : List Withheld) (index : SpatialIndex) (place : SpatialId) :
      (refusals.foldl (fun index refusal => (index.recordWithheld refusal.subject refusal.label
        refusal.state refusal.detail).2) index).contains place = index.contains place := by
    induction refusals generalizing index with
    | nil => rfl
    | cons first rest ih =>
      rw [foldl_cons, ih, recordWithheld, contains_modify]
  have hheld (place : SpatialId) :
      (pass.read reader kind record id).index.contains place = pass.index.contains place := by
    rw [Pass.read, hwithheld, hnamed]
  have hkeys (names : List String) (keys : KeyTable) (entry : (SpatialType × String) × SpatialId)
      (hentry : entry ∈ names.foldl (fun keys key => ((kind, key), id) :: keys) keys) :
      entry ∈ keys ∨ entry.2 = id := by
    induction names generalizing keys with
    | nil => exact .inl hentry
    | cons first rest ih =>
      rcases ih _ hentry with hmem | heq
      · rcases mem_cons.1 hmem with rfl | hmem
        · exact .inr rfl
        · exact .inl hmem
      · exact .inr heq
  refine ⟨fun place hplace => ?_, fun entry hentry => ?_, fun fact hfact => ?_⟩
  · rw [hheld]
    exact h.held place hplace
  · rw [hheld]
    rcases hkeys _ _ entry hentry with hmem | heq
    · exact h.keys entry hmem
    · exact .inr (heq ▸ hid)
  · rw [hheld]
    rcases mem_append.1 hfact with hmem | hmem
    · exact h.facts fact hmem
    · exact .inr (Reader.about_factsOf kind fact hmem ▸ hid)

theorem From.note (h : start.From pass) (record : RecordValue) :
    start.From (pass.note reader instant record) := by
  rw [Pass.note]
  split
  · dsimp only
    split_ifs
    · exact h
    · exact h.grow rfl rfl fun _ hplace => hplace
  · split
    · exact h.grow rfl rfl fun _ hplace => hplace
    · rename_i object _
      split
      · exact h.grow rfl rfl fun _ hplace => hplace
      · rename_i registration index heq
        obtain ⟨hheld, hself⟩ := contains_registered heq
        have hgrown : start.From { pass with
            index := index
            outcome := pass.outcome.registered object.spatialId registration } :=
          h.grow rfl rfl hheld
        exact hgrown.read hself

theorem From.make (h : start.From pass) (kind : SpatialType) (key : String)
    (place : SpatialObject) : start.From (pass.make reader instant kind key place) := by
  rw [Pass.make]
  split
  · exact h.grow rfl rfl fun _ hplace => hplace
  · rename_i registration index heq
    obtain ⟨hheld, hself⟩ := contains_registered heq
    refine ⟨fun place hplace => hheld place (h.held place hplace), fun entry hentry => ?_,
      fun fact hfact => (h.facts fact hfact).imp_right (hheld _)⟩
    rcases mem_cons.1 hentry with rfl | hmem
    · exact .inr hself
    · exact (h.keys entry hmem).imp_right (hheld _)

theorem From.compose (h : start.From pass) (fact : Fact) :
    start.From (pass.compose reader instant fact) := by
  rw [Pass.compose]
  split
  · exact h
  · split
    · exact h
    · exact h.make _ _ _

theorem From.foldl_note (h : start.From pass) (records : List RecordValue) :
    start.From (records.foldl (Pass.note reader instant) pass) := by
  induction records generalizing pass with
  | nil => exact h
  | cons first rest ih => exact ih (h.note first)

theorem From.foldl_compose (h : start.From pass) (facts : List Fact) :
    start.From (facts.foldl (Pass.compose reader instant) pass) := by
  induction facts generalizing pass with
  | nil => exact h
  | cons first rest ih => exact ih (h.compose first)

theorem facts_compose (pass : Pass) (fact : Fact) :
    (pass.compose reader instant fact).facts = pass.facts := by
  rw [compose]
  split
  · rfl
  · split
    · rfl
    · rw [make]
      split <;> rfl

theorem facts_foldl_compose (facts : List Fact) (pass : Pass) :
    (facts.foldl (compose reader instant) pass).facts = pass.facts := by
  induction facts generalizing pass with
  | nil => rfl
  | cons first rest ih => rw [foldl_cons, ih, facts_compose]

end Pass

namespace ProviderBridge

variable {reader : Reader} {bridge : ProviderBridge} {index : SpatialIndex}
  {records : List RecordValue} {instant : Int}

theorem from_composed : From
    ⟨index, bridge.keys, bridge.pending, bridge.pendingPaths, ⟨[], [], [], [], 0⟩⟩
    (bridge.composed reader index records instant) :=
  ((Pass.From.refl _).foldl_note records).foldl_compose _

variable {fact : Fact}

theorem mem_assertions (h : fact ∈ bridge.assertions reader index records instant) :
    fact ∈ bridge.pending ∨
      (bridge.composed reader index records instant).index.contains fact.subject = true := by
  refine from_composed.facts fact ?_
  rw [composed, facts_foldl_compose]
  exact h

/-! ### Settling -/

/-- The third pass records the edges of the assertions that are settled, in their order, and keeps
the others whose subject is held. -/
theorem foldl_settling (geography : Geography) (keys : KeyTable) (facts : List Fact)
    (state : Settling) :
    facts.foldl (Settling.step geography keys instant) state =
      ⟨(facts.filterMap (settle keys instant)).foldl
          (fun index edge => index.recordEdge geography edge) state.index,
        state.pending ++ facts.filter fun fact =>
          (settle keys instant fact).isNone && state.index.contains fact.subject,
        state.edges + (facts.filterMap (settle keys instant)).length⟩ := by
  induction facts generalizing state with
  | nil => simp
  | cons first rest ih =>
    rw [foldl_cons, ih, Settling.step]
    rcases hsettle : settle keys instant first with _ | edge
    · rw [filterMap_cons_none hsettle]
      split_ifs with hheld
      · simp [hsettle, hheld]
      · simp [hsettle, hheld]
    · rw [filterMap_cons_some hsettle]
      simp only [hsettle, foldl_cons, contains_recordEdge, filter_cons,
        Option.isNone_some, Bool.false_and, Bool.false_eq_true, ↓reduceIte, length_cons,
        Nat.add_assoc, Nat.add_comm 1]

theorem absorb_pending : (bridge.absorb reader index records instant).2.1.pending =
    (bridge.assertions reader index records instant).filter fun fact =>
      (settle (bridge.composed reader index records instant).keys instant fact).isNone &&
        (bridge.composed reader index records instant).index.contains fact.subject := by
  rw [absorb, settled, foldl_settling]
  rfl

theorem absorb_keys : (bridge.absorb reader index records instant).2.1.keys =
    (bridge.composed reader index records instant).keys := rfl

/-- Recording edges and enclosing directories adds and removes no place. -/
theorem contains_absorb (place : SpatialId) :
    (bridge.absorb reader index records instant).2.2.contains place =
      (bridge.composed reader index records instant).index.contains place := by
  have hpaths (paths : List PathParent) (keys : KeyTable) (state : SpatialIndex × List PathParent) :
      (paths.foldl (placePath reader.geography keys) state).1.contains place =
        state.1.contains place := by
    induction paths generalizing state with
    | nil => rfl
    | cons first rest ih =>
      rw [foldl_cons, ih, placePath]
      split
      · rename_i parent _
        have hset := @contains_setPathParent reader.geography state.1 place
          first.child parent
        split
        · rename_i after heq
          rw [heq] at hset
          exact hset
        · rename_i after heq
          rw [heq] at hset
          split_ifs <;> exact hset
      · split_ifs <;> rfl
  rw [absorb, hpaths, settled, foldl_settling]
  exact contains_foldl_recordEdge _

/-! ### One batch -/

variable (reader bridge index records instant)

/-- A batch whose references lead to places there are: what waited and is answered now is about a
place that is held; a place the table named before the batch and that answers now is held; and the
kind asked first for a key is the one that carried it last. -/
structure Current : Prop where
  subjects : ∀ fact ∈ bridge.pending,
    ((bridge.composed reader index records instant).keys.resolve fact.far.objectType
      fact.far.key).isSome →
    (bridge.composed reader index records instant).index.contains fact.subject = true
  places : ∀ fact ∈ bridge.assertions reader index records instant, ∀ far,
    (bridge.composed reader index records instant).keys.resolve fact.far.objectType
      fact.far.key = some far → (∃ entry ∈ bridge.keys, entry.2 = far) →
    (bridge.composed reader index records instant).index.contains far = true
  latest : ∀ fact ∈ bridge.assertions reader index records instant,
    (bridge.composed reader index records instant).keys.resolve fact.far.objectType
        fact.far.key =
      (bridge.composed reader index records instant).keys.latest fact.far.objectType fact.far.key

/-- What absorbing a batch should do: an edge has both its ends held when it is recorded, and the
edge of an assertion leads to the held place whose record carried the key last. -/
structure Faithful : Prop where
  ends : ∀ before edge after,
    bridge.recordedEdges reader index records instant = before ++ edge :: after →
    ∀ now, now = before.foldl (fun index edge => index.recordEdge reader.geography edge)
        (bridge.composed reader index records instant).index →
      now.contains edge.source = true ∧ now.contains edge.target = true
  named : ∀ fact ∈ bridge.assertions reader index records instant, ∀ edge,
    settle (bridge.composed reader index records instant).keys instant fact = some edge →
    ∃ far, edge.otherEnd fact.subject = some far ∧
      (bridge.composed reader index records instant).keys.latest fact.far.objectType
        fact.far.key = some far ∧
      (bridge.absorb reader index records instant).2.2.contains far = true

variable {reader bridge index records instant}

theorem settle_eq_some {keys : KeyTable} {edge : RelationshipEdge}
    (h : settle keys instant fact = some edge) :
    ∃ far, keys.resolve fact.far.objectType fact.far.key = some far ∧
      edge.otherEnd fact.subject = some far ∧ edge.Touches fact.subject ∧
      ∀ place, edge.Touches place → place = fact.subject ∨ place = far := by
  obtain ⟨far, hfar, rfl⟩ := Option.map_eq_some_iff.1 h
  refine ⟨far, hfar, ?_, ?_, ?_⟩
  · rw [otherEnd]
    by_cases hsource : fact.subjectIsSource
    · simp [hsource]
    · by_cases hsame : fact.subject = far
      · simp [hsource, hsame]
      · simp [hsource, hsame]
  · rw [Touches]
    by_cases hsource : fact.subjectIsSource <;> simp [hsource]
  · rintro place (rfl | rfl)
    · by_cases hsource : fact.subjectIsSource <;> simp [hsource]
    · by_cases hsource : fact.subjectIsSource <;> simp [hsource]

theorem mem_assertions_of_pending (h : fact ∈ bridge.pending) :
    fact ∈ bridge.assertions reader index records instant := by
  have hmono (records : List RecordValue) (pass : Pass) (hfact : fact ∈ pass.facts) :
      fact ∈ (records.foldl (note reader instant) pass).facts := by
    induction records generalizing pass with
    | nil => exact hfact
    | cons first rest ih =>
      refine ih _ ?_
      rw [note]
      split
      · dsimp only
        split_ifs <;> exact hfact
      · split
        · exact hfact
        · split
          · exact hfact
          · exact mem_append_left _ hfact
  exact hmono records _ h

/-- **The condition is exact.** A batch is absorbed faithfully exactly when its references lead to
places there are. -/
theorem current_iff_faithful : bridge.Current reader index records instant ↔
    bridge.Faithful reader index records instant := by
  constructor
  · intro h
    have hplaces {fact : Fact} {edge : RelationshipEdge}
        (hfact : fact ∈ bridge.assertions reader index records instant)
        (hedge : settle (bridge.composed reader index records instant).keys instant fact =
          some edge) (place : SpatialId) (htouches : edge.Touches place) :
        (bridge.composed reader index records instant).index.contains place = true := by
      obtain ⟨far, hfar, -, -, hends⟩ := settle_eq_some hedge
      rcases hends place htouches with rfl | rfl
      · rcases mem_assertions hfact with hpending | hheld
        · exact h.subjects fact hpending (by rw [hfar]; rfl)
        · exact hheld
      · obtain ⟨entry, hentry, rfl⟩ := KeyTable.mem_of_resolve hfar
        rcases from_composed.keys entry hentry with hold | hheld
        · exact h.places fact hfact _ hfar ⟨entry, hold, rfl⟩
        · exact hheld
    refine ⟨?_, ?_⟩
    · rintro before edge after heq now rfl
      obtain ⟨fact, hfact, hedge⟩ := mem_filterMap.1
        (heq ▸ mem_append_right before mem_cons_self :
          edge ∈ bridge.recordedEdges reader index records instant)
      rw [contains_foldl_recordEdge, contains_foldl_recordEdge]
      exact ⟨hplaces hfact hedge _ (.inl rfl), hplaces hfact hedge _ (.inr rfl)⟩
    · intro fact hfact edge hedge
      obtain ⟨far, hfar, hend, -, -⟩ := settle_eq_some hedge
      refine ⟨far, hend, (h.latest fact hfact).symm.trans hfar, ?_⟩
      rw [contains_absorb]
      exact hplaces hfact hedge far (touches_of_otherEnd hend)
  · intro h
    have hends {fact : Fact} {edge : RelationshipEdge}
        (hfact : fact ∈ bridge.assertions reader index records instant)
        (hedge : settle (bridge.composed reader index records instant).keys instant fact =
          some edge) (place : SpatialId) (htouches : edge.Touches place) :
        (bridge.composed reader index records instant).index.contains place = true := by
      obtain ⟨before, after, heq⟩ := append_of_mem
        (mem_filterMap.2 ⟨fact, hfact, hedge⟩ :
          edge ∈ bridge.recordedEdges reader index records instant)
      have hboth := h.ends before edge after heq _ rfl
      rw [contains_foldl_recordEdge, contains_foldl_recordEdge] at hboth
      rcases htouches with rfl | rfl
      · exact hboth.1
      · exact hboth.2
    have hedge {fact : Fact} {far : SpatialId} (hfar :
        (bridge.composed reader index records instant).keys.resolve fact.far.objectType
          fact.far.key = some far) :
        ∃ edge, settle (bridge.composed reader index records instant).keys instant fact =
          some edge := ⟨_, by rw [settle, hfar]; rfl⟩
    refine ⟨fun fact hfact hsome => ?_, fun fact hfact far hfar _ => ?_, fun fact hfact => ?_⟩
    · obtain ⟨far, hfar⟩ := Option.isSome_iff_exists.1 hsome
      obtain ⟨edge, hedge⟩ := hedge hfar
      exact hends (mem_assertions_of_pending hfact) hedge _ (settle_eq_some hedge).choose_spec.2.2.1
    · obtain ⟨edge, hedge⟩ := hedge hfar
      obtain ⟨other, hother, hend, -, -⟩ := settle_eq_some hedge
      obtain rfl := Option.some.inj (hfar.symm.trans hother)
      exact hends hfact hedge _ (touches_of_otherEnd hend)
    · rcases hfar : (bridge.composed reader index records instant).keys.resolve
        fact.far.objectType fact.far.key with _ | far
      · exact (KeyTable.latest_eq_none_iff.2 hfar).symm
      · obtain ⟨edge, hedge⟩ := hedge hfar
        obtain ⟨other, hother, hend, -, -⟩ := settle_eq_some hedge
        obtain ⟨named, hnamed, hlatest, -⟩ := h.named fact hfact edge hedge
        rw [hlatest, ← hnamed, hend, ← hother, hfar]

/-- An assertion whose subject is held after a batch has become an edge, or waits because no place
that may answer it has carried its key. -/
theorem waits_or_settled (hfact : fact ∈ bridge.assertions reader index records instant)
    (hheld : (bridge.absorb reader index records instant).2.2.contains fact.subject = true) :
    (∃ edge ∈ bridge.recordedEdges reader index records instant,
        settle (bridge.composed reader index records instant).keys instant fact = some edge) ∨
      fact ∈ (bridge.absorb reader index records instant).2.1.pending ∧
        (bridge.absorb reader index records instant).2.1.keys.latest fact.far.objectType
          fact.far.key = none := by
  rcases hsettle : settle (bridge.composed reader index records instant).keys instant fact with
    _ | edge
  · refine .inr ⟨?_, ?_⟩
    · rw [contains_absorb] at hheld
      rw [absorb_pending, mem_filter, hsettle, hheld]
      exact ⟨hfact, rfl⟩
    · rw [absorb_keys, KeyTable.latest_eq_none_iff]
      exact Option.map_eq_none_iff.1 hsettle
  · exact .inl ⟨edge, mem_filterMap.2 ⟨fact, hfact, hsettle⟩, rfl⟩

end ProviderBridge

/-! ### Runs -/

/-- The bridge and the index it feeds. -/
structure Session where
  bridge : ProviderBridge
  index : SpatialIndex

/-- What may happen to them: a batch is absorbed, a place is removed, or stale places are
forgotten. -/
inductive SessionStep
  | absorb (records : List RecordValue) (instant : Int)
  | remove (id : SpatialId)
  | forgetStale (now : Int) (keep : Finset SpatialId)

namespace Session

/-- The session after a step. -/
def perform (reader : Reader) (session : Session) : SessionStep → Session
  | .absorb records instant =>
    ⟨(session.bridge.absorb reader session.index records instant).2.1,
      (session.bridge.absorb reader session.index records instant).2.2⟩
  | .remove id => ⟨session.bridge, (session.index.remove id).2⟩
  | .forgetStale now keep => ⟨session.bridge, (session.index.forgetStale now keep).2⟩

/-- A step whose references, where it absorbs a batch, lead to places there are. -/
def Current (reader : Reader) (session : Session) : SessionStep → Prop
  | .absorb records instant => session.bridge.Current reader session.index records instant
  | _ => True

variable {reader : Reader} {session : Session} {fact : Fact}

/-- An assertion was settled by a batch. -/
def Settles (reader : Reader) (session : Session) (records : List RecordValue) (instant : Int)
    (fact : Fact) : Prop :=
  ∃ edge ∈ session.bridge.recordedEdges reader session.index records instant,
    settle (session.bridge.composed reader session.index records instant).keys instant fact =
      some edge

/-- The subject of an assertion is held after every batch of a run. -/
def HeldThrough (reader : Reader) (session : Session) (steps : List SessionStep) (fact : Fact) :
    Prop :=
  ∀ before records instant after, steps = before ++ .absorb records instant :: after →
    ((before.foldl (perform reader) session).perform reader
      (.absorb records instant)).index.contains fact.subject = true

/-- An assertion whose subject stays held waits until a batch settles it. -/
theorem waits (steps : List SessionStep) (hpending : fact ∈ session.bridge.pending)
    (hheld : session.HeldThrough reader steps fact) :
    fact ∈ (steps.foldl (perform reader) session).bridge.pending ∨
      ∃ before records instant after, steps = before ++ .absorb records instant :: after ∧
        (before.foldl (perform reader) session).Settles reader records instant fact := by
  induction steps generalizing session with
  | nil => exact .inl hpending
  | cons first rest ih =>
    have hrest : (session.perform reader first).HeldThrough reader rest fact :=
      fun before records instant after heq =>
        hheld (first :: before) records instant after (congrArg (first :: ·) heq)
    have hon (hstill : fact ∈ (session.perform reader first).bridge.pending) :
        fact ∈ ((first :: rest).foldl (perform reader) session).bridge.pending ∨
          ∃ before records instant after, first :: rest = before ++ .absorb records instant :: after ∧
            (before.foldl (perform reader) session).Settles reader records instant fact := by
      rcases ih hstill hrest with hend | ⟨before, records, instant, after, heq, hsettles⟩
      · exact .inl hend
      · exact .inr ⟨first :: before, records, instant, after, congrArg (first :: ·) heq, hsettles⟩
    cases first with
    | absorb records instant =>
      rcases waits_or_settled (mem_assertions_of_pending hpending)
        (hheld [] records instant rest rfl) with hsettled | ⟨hstill, -⟩
      · exact .inr ⟨[], records, instant, rest, rfl, hsettled⟩
      · exact hon hstill
    | remove id => exact hon hpending
    | forgetStale now keep => exact hon hpending

/-- **No edge dangles and no assertion is lost.** In a run of batches, removals and expiries whose
batches all refer to places there are, every batch is absorbed faithfully; after it, an assertion
whose subject is held was settled or waits with no place known for its key; and one that waits goes
on waiting until a batch settles it, as long as its subject is held. -/
theorem faithful_of_current (reader : Reader) (freshness : FreshnessPolicy)
    (steps : List SessionStep)
    (h : Along (perform reader) (Current reader) steps ⟨.new, .new freshness⟩) :
    (∀ before records instant after, steps = before ++ .absorb records instant :: after →
      ∀ now, now = before.foldl (perform reader) ⟨.new, .new freshness⟩ →
        now.bridge.Faithful reader now.index records instant ∧
        ∀ fact ∈ now.bridge.assertions reader now.index records instant,
          (now.perform reader (.absorb records instant)).index.contains fact.subject = true →
            now.Settles reader records instant fact ∨
              fact ∈ (now.perform reader (.absorb records instant)).bridge.pending ∧
                (now.perform reader (.absorb records instant)).bridge.keys.latest
                  fact.far.objectType fact.far.key = none) ∧
    ∀ before middle after fact, steps = before ++ middle ++ after →
      ∀ now, now = before.foldl (perform reader) ⟨.new, .new freshness⟩ →
        fact ∈ now.bridge.pending → now.HeldThrough reader middle fact →
          fact ∈ (middle.foldl (perform reader) now).bridge.pending ∨
            ∃ first records instant last, middle = first ++ .absorb records instant :: last ∧
              (first.foldl (perform reader) now).Settles reader records instant fact := by
  refine ⟨?_, fun before middle after fact _ now _ hpending hheld => waits middle hpending hheld⟩
  rintro before records instant after rfl now rfl
  exact ⟨current_iff_faithful.1 h.of_append_cons,
    fun fact hfact hheld => waits_or_settled hfact hheld⟩

end Session

/-! ### A process that is gone -/

/-- The text of a string or a number. -/
def plainText : Value → Option String
  | .string text => some text
  | .int number => some (toString number)
  | _ => none

/-- A reader of strings and numbers: the object of a record is the one its first field names. -/
def plainReader : Reader where
  canonicalText := plainText
  projectAs record kind := .ok
    { identity := ⟨kind.identityTier, kind, [("scope", "host:web01"),
        ("key", (record.fields.head?.bind plainText).getD "")]⟩
      objectType := kind
      canonicalRef := ⟨schemaText record.schema.id, ""⟩
      displayName := ""
      scope := ["host:web01"]
      lifetime := ⟨kind.identityTier, 0, 0, none⟩
      provenance := record.provenance
      capabilities := [.enter, .act]
      observed := ⟨_, rfl, .inl rfl⟩ }
  derive kind _ field key provenance :=
    { identity := ⟨kind.identityTier, kind, [("scope", "host:web01"), (field, key)]⟩
      objectType := kind
      canonicalRef := ⟨key, key⟩
      displayName := key
      scope := ["host:web01"]
      lifetime := ⟨kind.identityTier, 0, 0, none⟩
      provenance := provenance
      capabilities := [.enter]
      observed := ⟨_, rfl, .inl rfl⟩ }
  geography :=
    { standing := none
      contributedTypes := []
      relations := [⟨"process.owns_socket", .process, .socket, .outbound, "sockets", "owner",
        .expensive⟩] }

/-- A record of one provider. -/
def plainRecord (schema : String) (fields : List (String × Value)) : RecordValue where
  schema := ⟨⟨schema, 1⟩, fields.map fst⟩
  fields := fields.map snd
  extra := []
  provenance := ⟨"linux.procfs", some 0, none, .onThisHost, ⟨schema, 1⟩, none, none⟩

/-- A process, and a socket that says the process owns it. -/
def processRecord : RecordValue :=
  plainRecord "ono.process" [("pid", .int 7)]

def socketRecord : RecordValue :=
  plainRecord "ono.socket" [("inode", .int 555), ("state", .string "listen"), ("process", .int 7)]

/-- The place of the process. -/
def processId : SpatialId :=
  ⟨.lifetime, "Process", [("scope", "host:web01"), ("key", "7")]⟩

/-- Nothing runs out. -/
def neverStale : FreshnessPolicy := ⟨fun _ _ => none⟩

/-- A session that has seen the process. -/
def processSeen : Session :=
  (Session.mk .new (.new neverStale)).perform plainReader (.absorb [processRecord] 0)

/-- A socket that names a process the index holds is absorbed faithfully. -/
theorem faithful_socket :
    processSeen.bridge.Faithful plainReader processSeen.index [socketRecord] 1 := by
  have hcurrent : Along (Session.perform plainReader) (Session.Current plainReader)
      [.absorb [processRecord] 0, .absorb [socketRecord] 1] ⟨.new, .new neverStale⟩ := by
    have hheld : ∀ fact ∈ processSeen.bridge.assertions plainReader processSeen.index
        [socketRecord] 1,
        ((processSeen.bridge.composed plainReader processSeen.index [socketRecord] 1).keys.resolve
          fact.far.objectType fact.far.key).all
          (processSeen.bridge.composed plainReader processSeen.index
            [socketRecord] 1).index.contains = true := by
      decide +kernel
    refine ⟨⟨fun _ h => absurd h not_mem_nil, fun _ _ _ _ h => ?_, by decide +kernel⟩,
      ⟨by decide +kernel, fun fact hfact far hfar _ => ?_, by decide +kernel⟩, trivial⟩
    · obtain ⟨entry, hentry, -⟩ := h
      exact absurd hentry not_mem_nil
    · have hfact := hheld fact hfact
      rw [Option.all_eq_true] at hfact
      exact hfact far hfar
  exact ((Session.faithful_of_current plainReader neverStale _ hcurrent).1
    [.absorb [processRecord] 0] [socketRecord] 1 [] rfl processSeen rfl).1

/-- A session that has seen the process and forgotten it. -/
def processForgotten : Session :=
  processSeen.perform plainReader (.remove processId)

/-- A socket that names a process the index has forgotten makes an edge to nothing. -/
theorem not_faithful_socket :
    ¬ ∀ (reader : Reader) (freshness : FreshnessPolicy) (steps : List SessionStep)
      (before : List SessionStep) (records : List RecordValue) (instant : Int)
      (after : List SessionStep), steps = before ++ .absorb records instant :: after →
      ∀ now, now = before.foldl (Session.perform reader) ⟨.new, .new freshness⟩ →
        now.bridge.Faithful reader now.index records instant := by
  intro hclaim
  have hfaithful := hclaim plainReader neverStale _
    [.absorb [processRecord] 0, .remove processId] [socketRecord] 1 [] rfl processForgotten rfl
  have hsources : (processForgotten.bridge.recordedEdges plainReader processForgotten.index
      [socketRecord] 1).map source = [processId] := by decide +kernel
  obtain ⟨edge, hedge, hsource⟩ := map_eq_singleton_iff.1 hsources
  have hheld := (hfaithful.ends [] edge [] hedge _ rfl).1
  rw [hsource] at hheld
  exact absurd hheld (by decide +kernel)

end OnoSendai.Spatial
