import OnoSendai.Temporal.Agreement

/-!
# Event references

What a renderer writes for an event is a start of its identity, long enough for the ledger to tell
it from the events it holds, and longer again where the session has already shown a text that
begins as it does (`ono_temporal_query::search`). The identity of an event is a digest of one
length; a shorter one is a reference, not an event.
-/

namespace OnoSendai.Temporal

open Lexicographic List String Option

/-- Whether a reference is a complete identity. -/
def EventId.isComplete (id : EventId) : Bool :=
  id.text.toList.length = long + 1

/-- A reference that a session issued: its text, and the identity it stands for. -/
structure EventRef where
  short : String
  full : EventId
deriving DecidableEq

/-- The fewest digits of a reference. -/
def minReferenceDigits : Nat :=
  2

/-- The digits a reference carries beyond the fewest that the ledger can tell apart. -/
def referenceHeadroom : Nat :=
  1

/-- Whether one text begins with the other. -/
def sharesPrefix (a b : List Char) : Bool :=
  b.isPrefixOf a || a.isPrefixOf b

namespace EventReferences

section Issuing

variable (issued : List EventRef)

/-- The reference the session already shows for an event. -/
def held (id : EventId) : Option EventRef :=
  issued.find? (·.full = id)

/-- The first length at which no reference of the session shares the start of an identity. -/
def lengthened (identity : List Char) (length : Nat) : Nat :=
  ((range' length (identity.length - length)).find? fun length =>
    !issued.any fun held => sharesPrefix held.short.toList (identity.take length)).getD
      identity.length

/-- Issues the reference for an event, given the length the ledger can tell apart. -/
def mint (event : TemporalEvent) (length : Option Nat) : EventRef × List EventRef :=
  let identity := event.eventId.text.toList
  let floor := min (minReferenceDigits + 1) identity.length
  let length := max floor
    (min ((length.map (· + referenceHeadroom)).getD identity.length) identity.length)
  let minted : EventRef :=
    { short := ofList (identity.take (lengthened issued identity length))
      full := event.eventId }
  (minted, issued ++ [minted])

/-- The reference for an event, issued where the session does not show one. -/
def issue (event : TemporalEvent) (length : Option Nat) : EventRef × List EventRef :=
  match held issued event.eventId with
  | some held => (held, issued)
  | none => mint issued event length

/-- How long the start of each identity has to be, where the ledger can be asked. -/
def uniqueLengths (ledger : Option SessionLedger) (ids : List EventId) : List Nat :=
  (ledger.map (·.shortestUniquePrefixes ids (minReferenceDigits + 1))).getD []

/-- The reference for one event. -/
def reference (ledger : Option SessionLedger) (event : TemporalEvent) :
    EventRef × List EventRef :=
  issue issued event (uniqueLengths ledger [event.eventId]).head?

/-- The references for some events, given lengths for their identities. -/
def issueAll (lengths : List (EventId × Nat)) :
    List EventRef → List TemporalEvent → List EventRef × List EventRef
  | issued, [] => ([], issued)
  | issued, event :: events =>
    let (given, issued) :=
      issue issued event ((lengths.find? (·.1 = event.eventId)).map (·.2))
    let (others, issued) := issueAll lengths issued events
    (given :: others, issued)

/-- The references for some events, with one question to the ledger. -/
def referenceAll (ledger : Option SessionLedger) (events : List TemporalEvent) :
    List EventRef × List EventRef :=
  let unseen := (events.filter fun event => (held issued event.eventId).isNone).map (·.eventId)
  let lengths := (unseen.zip (uniqueLengths ledger unseen)).destutter (·.1 ≠ ·.1)
  issueAll lengths issued events

/-- The identity that a reference of this session stands for. -/
def lookup (reference : String) : Option EventId :=
  let bare := match reference.toList with
    | '@' :: bare => ofList bare
    | _ => reference
  (issued.find? (·.short = bare)).map (·.full)

end Issuing

/-! ### Runs -/

/-- A ledger, the references a session issued, and which it gave for which event. -/
structure Session where
  ledger : SessionLedger
  issued : List EventRef
  given : List (EventId × EventRef)

/-- What happens to a session. The ledger may be one that cannot be asked. -/
inductive Call
  | append (events : List TemporalEvent) (evidence : List Evidence)
  | reference (askable : Bool) (event : TemporalEvent)
  | referenceAll (askable : Bool) (events : List TemporalEvent)

/-- The events a call shows. -/
def Call.shown : Call → List TemporalEvent
  | append _ _ => []
  | reference _ event => [event]
  | referenceAll _ events => events

/-- A session after a call. -/
def Session.step (session : Session) : Call → Session
  | .append events evidence => { session with ledger := (session.ledger.append events evidence).1 }
  | .reference askable event =>
    let (given, issued) :=
      reference session.issued (if askable then some session.ledger else none) event
    { session with issued, given := session.given ++ [(event.eventId, given)] }
  | .referenceAll askable events =>
    let (given, issued) :=
      referenceAll session.issued (if askable then some session.ledger else none) events
    { session with issued, given := session.given ++ (events.map (·.eventId)).zip given }

/-- A session with an empty ledger of some capacity, after some calls. -/
def Session.after (capacity : Nat) (calls : List Call) : Session :=
  calls.foldl step { ledger := .withCapacity capacity, issued := [], given := [] }

/-- What was issued: texts apart from each other, for different events, each the start of a
complete identity. -/
structure Issued (issued : List EventRef) : Prop where
  apart : issued.Pairwise fun one other => one.short ≠ other.short ∧ one.full ≠ other.full
  sound : ∀ ref ∈ issued,
    ref.full.isComplete = true ∧ ref.short.toList <+: ref.full.text.toList

/-- References keep their meaning: what was issued is apart, every event was given the reference
that was issued for it, and that is read back as the event. -/
structure KeepsMeaning (session : Session) : Prop extends Issued session.issued where
  given : ∀ entry ∈ session.given, entry.2 ∈ session.issued ∧ entry.2.full = entry.1 ∧
    lookup session.issued entry.2.short = some entry.1
  same : ∀ entry ∈ session.given, ∀ other ∈ session.given, entry.1 = other.1 → entry.2 = other.2

/-- A reference names its event in a ledger that holds it. -/
def Names (ledger : SessionLedger) (ref : EventRef) : Prop :=
  ∀ event ∈ ledger.state.events, event.eventId = ref.full →
    ∃ id : EventId, id.text = ref.short ∧ ledger.event id = .ok (some event)

/-! ### Complete identities -/

theorem eq_of_isComplete {id other : EventId} (hcomplete : id.isComplete = true)
    (h : id.text.toList <+: other.text.toList) : other = id := by
  have hother : other.text.toList.length ≤ long + 1 := by
    have hformed := other.wellFormed
    unfold isReference at hformed
    cases hchars : other.text.toList with
    | nil => simp
    | cons first rest =>
      simp only [hchars, Bool.and_eq_true, decide_eq_true_eq] at hformed
      simpa using hformed.1.2
  have hid : id.text.toList.length = long + 1 := of_decide_eq_true hcomplete
  exact (eventId_inj (toList_inj.1 (h.eq_of_length_le (hid ▸ hother)))).symm

/-- The start of an identity that holds a digit is a reference. -/
theorem isReference_take (id : EventId) {n : Nat} (hn : 2 ≤ n) :
    isReference 'e' long (ofList (id.text.toList.take n)) = true := by
  obtain ⟨n, rfl⟩ := Nat.exists_eq_add_of_le' hn
  have hformed := id.wellFormed
  rw [isReference, toList_ofList]
  unfold isReference at hformed
  cases hchars : id.text.toList with
  | nil => simp [hchars] at hformed
  | cons first rest =>
    simp only [hchars, Bool.and_eq_true, decide_eq_true_eq] at hformed
    obtain ⟨⟨⟨rfl, hsome⟩, hlength⟩, hdigits⟩ := hformed
    cases rest with
    | nil => simp at hsome
    | cons digit rest =>
      simp only [take_succ_cons, all_cons, Bool.and_eq_true, decide_eq_true_eq,
        length_cons, isEmpty_cons, Bool.not_false] at hdigits hlength ⊢
      refine ⟨⟨by simp, ?_⟩, hdigits.1, all_eq_true.2 fun c hc => ?_⟩
      · exact (Nat.succ_le_succ (length_take_le' n rest)).trans hlength
      · exact all_eq_true.1 hdigits.2 c (mem_of_mem_take hc)

theorem le_shared_of_prefix {as bs : List Char} {n : Nat} (hn : n ≤ as.length)
    (h : as.take n <+: bs) : n ≤ shared as bs := by
  induction n generalizing as bs with
  | zero => exact Nat.zero_le _
  | succ n ih =>
    cases as with
    | nil => simp at hn
    | cons a as =>
      cases bs with
      | nil => simp at h
      | cons b bs =>
        rw [take_succ_cons, cons_prefix_cons] at h
        rw [shared_cons, if_pos h.1]
        exact Nat.succ_le_succ (ih (Nat.le_of_succ_le_succ hn) h.2)

/-- The length a ledger tells for one identity. -/
def lengthOf (ledger : SessionLedger) (id : EventId) : Nat :=
  (ledger.shortestUniquePrefixes [id] (minReferenceDigits + 1)).headD 0

/-- **The start of an identity names its event.** -/
theorem names_of_take {ledger : SessionLedger}
    (hnodup : (ledger.state.events.map (·.eventId)).Nodup) {id : EventId}
    (hcomplete : id.isComplete = true) {n : Nat} (hn : 2 ≤ n)
    (hlength : n < id.text.toList.length → lengthOf ledger id ≤ n) :
    Names ledger ⟨ofList (id.text.toList.take n), id⟩ := by
  rintro event hevent rfl
  refine ⟨⟨_, isReference_take event.eventId hn⟩, rfl, ?_⟩
  -- no other event of the ledger begins so
  have honly : ∀ other ∈ ledger.state.events,
      event.eventId.text.toList.take n <+: other.eventId.text.toList →
      other.eventId = event.eventId := by
    intro other hother hbegins
    by_contra hne
    rcases Nat.lt_or_ge n event.eventId.text.toList.length with hlt | hge
    · have hle := le_shared_of_prefix hlt.le hbegins
      obtain ⟨hleast, hall, -⟩ := foldl_max_spec
        (fun other : TemporalEvent => decide (other.eventId.text.toList.take 3 =
          event.eventId.text.toList.take 3) && decide (other.eventId.text ≠ event.eventId.text))
        (fun other => distinguishingLength event.eventId.text other.eventId.text)
        ledger.state.events (min 3 event.eventId.text.toList.length)
      have hdistinguishing : distinguishingLength event.eventId.text other.eventId.text ≤
          lengthOf ledger event.eventId := by
        by_cases hbucket : other.eventId.text.toList.take 3 = event.eventId.text.toList.take 3
        · refine hall other hother ?_
          simpa [hbucket] using fun heq => hne (eventId_inj heq)
        · exact (distinguishingLength_le hbucket).trans hleast
      rw [distinguishingLength_eq] at hdistinguishing
      have := hlength hlt
      omega
    · rw [take_of_length_le hge] at hbegins
      exact hne (eq_of_isComplete hcomplete hbegins)
  have hfilter : (ledger.state.events.filter fun other =>
      (ofList (event.eventId.text.toList.take n)).toList.isPrefixOf
        other.eventId.text.toList) = [event] := by
    refine perm_singleton.1 ((perm_ext_iff_of_nodup
      (hnodup.of_map.filter _) (nodup_singleton _)).2 fun other => ?_)
    rw [mem_filter, isPrefixOf_iff_prefix, toList_ofList, mem_singleton]
    constructor
    · rintro ⟨hother, hbegins⟩
      exact inj_on_of_nodup_map hnodup hother hevent (honly other hother hbegins)
    · rintro rfl
      exact ⟨hevent, take_prefix _ _⟩
  rw [SessionLedger.event, hfilter]

/-! ### Issuing keeps references apart -/

section Kept

variable {ledger : SessionLedger} {issued issued' : List EventRef} {event : TemporalEvent}
  {length : Option Nat}

theorem lengthened_spec {identity : List Char} {least : Nat} (hle : least ≤ identity.length) :
    least ≤ lengthened issued identity least ∧
      (lengthened issued identity least < identity.length → ∀ ref ∈ issued,
        sharesPrefix ref.short.toList
          (identity.take (lengthened issued identity least)) = false) := by
  rw [lengthened]
  cases hfind : (range' least (identity.length - least)).find? fun length =>
      !issued.any fun held => sharesPrefix held.short.toList (identity.take length) with
  | none => exact ⟨hle, fun hlt => absurd hlt (Nat.lt_irrefl _)⟩
  | some found =>
    refine ⟨(mem_range'_1.1 (mem_of_find?_eq_some hfind)).1, fun _ => ?_⟩
    simpa using find?_some hfind

/-- What issuing does: what was shown stays, what is shown is apart, and what is new names its
event. -/
structure Grows (ledger : SessionLedger) (issued issued' : List EventRef) : Prop where
  sound : Issued issued'
  kept : issued ⊆ issued'
  named : ∀ ref ∈ issued', ref ∉ issued → Names ledger ref

theorem Grows.trans {last : List EventRef} (h : Grows ledger issued issued')
    (h' : Grows ledger issued' last) : Grows ledger issued last := by
  refine ⟨h'.sound, Subset.trans h.kept h'.kept, fun ref hlast hnew => ?_⟩
  by_cases hmem : ref ∈ issued'
  · exact h.named ref hmem hnew
  · exact h'.named ref hlast hmem

/-- **What was issued stays apart.** -/
theorem Issued.mint (h : Issued issued) (hnodup : (ledger.state.events.map (·.eventId)).Nodup)
    (hcomplete : event.eventId.isComplete = true) (hnew : held issued event.eventId = none)
    (hlength : ∀ told, length = some told → told = lengthOf ledger event.eventId) :
    Grows ledger issued (mint issued event length).2 := by
  have hid : event.eventId.text.toList.length = long + 1 := of_decide_eq_true hcomplete
  have hother : ∀ ref ∈ issued, ref.full ≠ event.eventId := by
    simpa [held] using hnew
  obtain ⟨least, hfloor, hle, htold, hmint⟩ : ∃ least, 3 ≤ least ∧
      least ≤ event.eventId.text.toList.length ∧
      (least < event.eventId.text.toList.length → lengthOf ledger event.eventId ≤ least) ∧
      (EventReferences.mint issued event length).2 = issued ++
        [⟨ofList (event.eventId.text.toList.take
          (lengthened issued event.eventId.text.toList least)), event.eventId⟩] := by
    refine ⟨_, ?_, ?_, ?_, rfl⟩
    · rw [hid, minReferenceDigits, long]
      omega
    · omega
    · cases length with
      | none =>
        rw [map_none, getD_none]
        omega
      | some told =>
        rw [map_some, getD_some, ← hlength told rfl]
        omega
  rw [hmint]
  generalize hn : lengthened issued event.eventId.text.toList least = n
  obtain ⟨hleast, hshares⟩ := lengthened_spec hle
  rw [hn] at hleast hshares
  refine ⟨⟨pairwise_append.2 ⟨h.apart, pairwise_singleton _ _,
    fun ref href other hnew => ?_⟩, forall_mem_append.2 ⟨h.sound, ?_⟩⟩,
    subset_append_left _ _, fun ref hmem hnotin => ?_⟩
  · obtain rfl := mem_singleton.1 hnew
    refine ⟨fun hshort => ?_, hother ref href⟩
    rcases Nat.lt_or_ge n event.eventId.text.toList.length with hlt | hge
    · have hapart := hshares hlt ref href
      rw [hshort, toList_ofList, sharesPrefix, Bool.or_self,
        isPrefixOf_iff_prefix.2 (prefix_refl _)] at hapart
      cases hapart
    · have hbegins := (h.sound ref href).2
      rw [hshort, toList_ofList, take_of_length_le hge] at hbegins
      exact hother ref href (eq_of_isComplete hcomplete hbegins)
  · rw [forall_mem_singleton, toList_ofList]
    exact ⟨hcomplete, take_prefix _ _⟩
  · rw [mem_singleton.1 ((mem_append.1 hmem).resolve_left hnotin)]
    refine names_of_take hnodup hcomplete (by omega) fun hlt => ?_
    exact (htold (hleast.trans_lt hlt)).trans hleast

theorem Issued.issue (h : Issued issued) (hnodup : (ledger.state.events.map (·.eventId)).Nodup)
    (hcomplete : event.eventId.isComplete = true)
    (hlength : ∀ told, length = some told → told = lengthOf ledger event.eventId) :
    let out := issue issued event length
    Grows ledger issued out.2 ∧ out.1 ∈ out.2 ∧ out.1.full = event.eventId := by
  rw [EventReferences.issue]
  cases hheld : held issued event.eventId with
  | some ref =>
    exact ⟨⟨h, Subset.refl _, fun other hmem hnew => absurd hmem hnew⟩,
      mem_of_find?_eq_some hheld, by simpa using find?_some hheld⟩
  | none => exact ⟨h.mint hnodup hcomplete hheld hlength, by simp [EventReferences.mint], rfl⟩

theorem Issued.issueAll (h : Issued issued)
    (hnodup : (ledger.state.events.map (·.eventId)).Nodup) {lengths : List (EventId × Nat)}
    (hlengths : ∀ told ∈ lengths, told.2 = lengthOf ledger told.1) {events : List TemporalEvent}
    (hcomplete : ∀ event ∈ events, event.eventId.isComplete = true) :
    let out := issueAll lengths issued events
    Grows ledger issued out.2 ∧ ∀ entry ∈ (events.map (·.eventId)).zip out.1,
      entry.2 ∈ out.2 ∧ entry.2.full = entry.1 := by
  induction events generalizing issued with
  | nil => exact ⟨⟨h, Subset.refl _, fun ref hmem hnew => absurd hmem hnew⟩, by simp⟩
  | cons event events ih =>
    rw [forall_mem_cons] at hcomplete
    have htold : ∀ told, (lengths.find? (·.1 = event.eventId)).map (·.2) = some told →
        told = lengthOf ledger event.eventId := by
      intro told htold
      obtain ⟨entry, hentry, rfl⟩ := map_eq_some_iff.1 htold
      have hid : entry.1 = event.eventId := by simpa using find?_some hentry
      rw [hlengths entry (mem_of_find?_eq_some hentry), hid]
    obtain ⟨hgrows, hmem, hfull⟩ := h.issue hnodup hcomplete.1 htold
    obtain ⟨hrest, hothers⟩ := ih hgrows.sound hcomplete.2
    refine ⟨hgrows.trans hrest, ?_⟩
    rw [EventReferences.issueAll, map_cons, zip_cons_cons, forall_mem_cons]
    exact ⟨⟨hrest.kept hmem, hfull⟩, hothers⟩

theorem told_of_mem {askable : Bool} {ids : List EventId} {told : EventId × Nat}
    (h : told ∈ ids.zip (uniqueLengths (if askable then some ledger else none) ids)) :
    told.2 = lengthOf ledger told.1 := by
  cases askable with
  | false => simp [uniqueLengths] at h
  | true =>
    have hlengths : uniqueLengths (some ledger) ids = ids.map (lengthOf ledger) := rfl
    rw [if_pos rfl, hlengths, ← map_prod_left_eq_zip] at h
    obtain ⟨id, -, rfl⟩ := mem_map.1 h
    rfl

theorem Issued.eq_of_same (h : Issued issued) {one other : EventRef} (hone : one ∈ issued)
    (hother : other ∈ issued) (hsame : one.short = other.short ∨ one.full = other.full) :
    one = other := by
  by_contra hne
  have hsymm : Std.Symm fun one other : EventRef =>
      one.short ≠ other.short ∧ one.full ≠ other.full :=
    ⟨fun _ _ hpair => ⟨hpair.1.symm, hpair.2.symm⟩⟩
  have hapart := h.apart.forall hone hother hne
  exact hsame.elim hapart.1 hapart.2

theorem lookup_of_mem (h : Issued issued) {ref : EventRef} (hmem : ref ∈ issued) :
    lookup issued ref.short = some ref.full := by
  have hbare : ∀ rest, ref.short.toList ≠ '@' :: rest := by
    intro rest heq
    obtain ⟨tail, htail⟩ := (h.sound ref hmem).2
    have hformed := ref.full.wellFormed
    rw [isReference, ← htail, heq] at hformed
    simp at hformed
  have hlookup : lookup issued ref.short =
      (issued.find? (·.short = ref.short)).map (·.full) := by
    rw [lookup]
    split
    · exact absurd ‹_› (hbare _)
    · rfl
  rw [hlookup]
  cases hfind : issued.find? (·.short = ref.short) with
  | none => simpa using find?_eq_none.1 hfind ref hmem
  | some found =>
    rw [h.eq_of_same (mem_of_find?_eq_some hfind) hmem
      (.inl (by simpa using find?_some hfind)), map_some]

end Kept

/-- A session in the course of a run. -/
structure Reached (session : Session) : Prop where
  issued : Issued session.issued
  nodup : (session.ledger.state.events.map (·.eventId)).Nodup
  given : ∀ entry ∈ session.given, entry.2 ∈ session.issued ∧ entry.2.full = entry.1

theorem Reached.step {session : Session} (h : Reached session) {call : Call}
    (hcomplete : ∀ event ∈ call.shown, event.eventId.isComplete = true) :
    Reached (session.step call) ∧ ∀ ref ∈ (session.step call).issued, ref ∉ session.issued →
      Names session.ledger ref := by
  cases call with
  | append events evidence =>
    refine ⟨⟨h.issued, ?_, h.given⟩, fun ref hmem hnew => absurd hmem hnew⟩
    have hevents : (session.ledger.append events evidence).1.state.events =
        (session.ledger.queued events).1.drop _ := (dropOldest_eq _ _ _ _).1
    rw [Session.step, hevents, map_drop, queued_eq]
    exact ((foldl_pushNew_spec TemporalEvent.eventId events _ h.nodup).1).sublist
      (drop_sublist _ _)
  | reference askable event =>
    have htold : ∀ told, (uniqueLengths (if askable then some session.ledger else none)
        [event.eventId]).head? = some told → told = lengthOf session.ledger event.eventId := by
      intro told htold
      obtain ⟨others, hothers⟩ := head?_eq_some_iff.1 htold
      have hmem : (event.eventId, told) ∈ [event.eventId].zip (uniqueLengths
          (if askable then some session.ledger else none) [event.eventId]) := by
        simp [hothers]
      exact told_of_mem hmem
    obtain ⟨hgrows, hmem, hfull⟩ :=
      h.issued.issue h.nodup (hcomplete event mem_cons_self) htold
    refine ⟨⟨hgrows.sound, h.nodup, fun entry hentry => ?_⟩, hgrows.named⟩
    rcases mem_append.1 hentry with hold | hnew
    · exact ⟨hgrows.kept (h.given entry hold).1, (h.given entry hold).2⟩
    · rw [mem_singleton.1 hnew]
      exact ⟨hmem, hfull⟩
  | referenceAll askable events =>
    obtain ⟨hgrows, hgiven⟩ := h.issued.issueAll h.nodup
      (fun told htold => told_of_mem ((destutter_sublist (·.1 ≠ ·.1) _).subset htold))
      hcomplete
    refine ⟨⟨hgrows.sound, h.nodup, fun entry hentry => ?_⟩, hgrows.named⟩
    rcases mem_append.1 hentry with hold | hnew
    · exact ⟨hgrows.kept (h.given entry hold).1, (h.given entry hold).2⟩
    · exact hgiven entry hnew

theorem reached_after (capacity : Nat) {calls : List Call}
    (hcomplete : ∀ call ∈ calls, ∀ event ∈ call.shown, event.eventId.isComplete = true) :
    Reached (.after capacity calls) := by
  induction calls using reverseRecOn with
  | nil =>
    exact ⟨⟨.nil, by simp [Session.after]⟩, nodup_nil, by simp [Session.after]⟩
  | append_singleton calls call ih =>
    rw [forall_mem_append] at hcomplete
    rw [Session.after, foldl_concat]
    exact ((ih hcomplete.1).step (hcomplete.2 call mem_cons_self)).1

/-- **References keep their meaning.** -/
theorem keepsMeaning_after (capacity : Nat) (calls : List Call)
    (hcomplete : ∀ call ∈ calls, ∀ event ∈ call.shown, event.eventId.isComplete = true) :
    KeepsMeaning (.after capacity calls) ∧ ∀ before call later, calls = before ++ call :: later →
      ∀ ref ∈ (Session.after capacity (before ++ [call])).issued,
        ref ∉ (Session.after capacity before).issued →
        Names (Session.after capacity before).ledger ref := by
  constructor
  · have h := reached_after capacity hcomplete
    refine ⟨h.issued, fun entry hentry => ?_, fun entry hentry other hother heq => ?_⟩
    · obtain ⟨hmem, hfull⟩ := h.given entry hentry
      exact ⟨hmem, hfull, hfull ▸ lookup_of_mem h.issued hmem⟩
    · obtain ⟨hmem, hfull⟩ := h.given entry hentry
      obtain ⟨hmem', hfull'⟩ := h.given other hother
      exact h.issued.eq_of_same hmem hmem' (.inr (by rw [hfull, hfull', heq]))
  · rintro before call later rfl
    rw [forall_mem_append, forall_mem_cons] at hcomplete
    rw [Session.after, foldl_concat]
    exact ((reached_after capacity hcomplete.1).step hcomplete.2.1).2

/-- What identifies an event that was seen twice. -/
def seen : EventId :=
  ⟨"e0123456789abcdef01234567", by decide⟩

theorem keepsMeaning_after_seen :
    let calls : List Call := [.append [History.eventAt seen 10] [],
      .reference true (History.eventAt seen 10)]
    KeepsMeaning (.after 5 calls) ∧ (Session.after 5 calls).given = [(seen, ⟨"e012", seen⟩)] := by
  refine ⟨(keepsMeaning_after 5 _ ?_).1, by decide +kernel⟩
  simp only [forall_mem_cons, Call.shown]
  decide +kernel

theorem not_keepsMeaning :
    (¬ ∀ ledger issued event, ∃ id : EventId,
      id.text = (reference issued (some ledger) event).1.short ∧
        ledger.event id = .ok (some event)) ∧
    ¬ ∀ capacity calls, Issued (Session.after capacity calls).issued := by
  constructor
  · intro h
    obtain ⟨id, -, hevent⟩ := h (.withCapacity 5) [] (History.eventAt seen 10)
    cases hevent
  · intro h
    have hapart := (h 5 [.reference true (History.eventAt seen 10),
      .reference true (History.eventAt ⟨"e012", by decide⟩ 10)]).apart
    revert hapart
    decide +kernel

end EventReferences

end OnoSendai.Temporal
