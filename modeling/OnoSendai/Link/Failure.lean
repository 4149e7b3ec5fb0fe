import OnoSendai.Lib.Indexed
import OnoSendai.Lib.Transition
import OnoSendai.Link.Client

/-!
# How a stream ends when its link fails

A consumer is told that a stream has nothing left in one of two ways: it reads the end the peer
sent, or its queue is empty and nobody holds a sender any more. The second is meant to come only
after the failure of the link has been read. This file says in which runs of a link, against a
peer that may send anything, that is so.

A cut stream looks complete when its queue is full as the failure is told. A stream outlives its
link when it is registered after the failure drained the table, and a call of `open` that fails to
encode its message leaves its stream registered.
-/

namespace OnoSendai.Link

open Interaction Client Option AList
open List hiding getElem?_eq_some_iff

/-! ### The caller's end as a system -/

/-- The steps of the caller's end: of the calls of `open`, of the reader against any peer, and of
the consumers. -/
inductive ClientStep (μ : Type)
  | check
  | register (consumer : Consumer)
  | sent (index : Nat)
  | unencodable (index : Nat)
  | gone (index : Nat)
  | read (frame : Frame μ)
  | deliver
  | cut (error : ErrorValue)
  | fail
  | recv (index : Nat)
  | cancel (index : Nat)
  | drop (index : Nat)

section System

variable {μ : Type} (limits : Limits) (window : Nat)

/-- What a step does. -/
def Client.next (client : Client μ) : ClientStep μ → Option (Client μ)
  | .check => client.check
  | .register consumer => client.register limits consumer
  | .sent index => (client.sent index).map (·.1)
  | .unencodable index => client.unencodable index
  | .gone index => client.gone index
  | .read frame => client.read frame
  | .deliver => client.deliver window
  | .cut error => client.cut error
  | .fail => client.fail window
  | .recv index => (client.recv window index).map (·.1)
  | .cancel index => (client.cancel index).map (·.1)
  | .drop index => client.drop index

/-- The caller's end of a link. -/
def link : Transition (Client μ) (ClientStep μ) where
  next := next limits window

end System

/-! ### What is meant to hold, and when it does -/

section Condition

variable {μ : Type}

/-- Whether the failure of the link has taken every stream out of the table. -/
def Client.drained (client : Client μ) : Bool :=
  match client.reader with
  | .failing _ (.tell _) | .stopped => true
  | _ => false

/-- What is meant to hold: a stream that was reported to have nothing left was ended by the peer,
or its consumer has read the failure of the link; a link that has failed has no streams; and no
stream is registered whose call of `open` returned an error. -/
structure FailureSeen (client : Client μ) : Prop where
  reported : ∀ (index : Nat) (channel : Channel μ), client.channels[index]? = some channel →
    channel.consumer = .stream → channel.exhausted = true →
    .finish ∈ channel.taken ∨ ∃ error, client.failure = some error ∧ .failure error ∈ channel.taken
  empty : client.drained = true → client.table.entries = []
  opened : ∀ (id : StreamId) (index : Nat) (channel : Channel μ),
    client.table.lookup id = some index → client.channels[index]? = some channel →
    channel.opening ≠ .refused

/-- The condition on a step: a stream is registered while fewer than 2^32 have been and before the
failure has drained the table, its message encodes, the failure finds room in the queue of a
stream that has not ended, and no consumer reads on after cancelling its own stream. -/
def Attentive (window : Nat) (client : Client μ) : ClientStep μ → Prop
  | .register _ => client.channels.length < 2 ^ 32 ∧ client.drained = false
  | .unencodable _ => False
  | .fail => ∀ error index remaining channel,
    client.reader = .failing error (.tell (index :: remaining)) →
    client.channels[index]? = some channel → channel.consumer = .stream →
    channel.held = true → channel.cancelled = false →
    .finish ∉ channel.taken ++ channel.queue → hasRoom window channel = true
  | .recv index => ∀ channel, client.channels[index]? = some channel → channel.cancelled = false
  | _ => True

end Condition

/-! ### What every attentive step keeps -/

section Invariant

open Indexed

variable {μ : Type}

/-- The streams a failure is still to be told to. -/
def Client.told (client : Client μ) : List Nat :=
  match client.reader with
  | .failing _ (.tell remaining) => remaining
  | _ => []

/-- The failure of the link is recorded once the reader has come to draining the table. -/
def Client.Recorded (client : Client μ) : Prop :=
  match client.reader with
  | .failing error .drain | .failing error (.tell _) => client.failure = some error
  | .stopped => True
  | _ => client.failure = none

/-- Why a stream whose consumer still reads it is not at an end that nothing announced. -/
def Client.Accounted (client : Client μ) (index : Nat) (channel : Channel μ) : Prop :=
  client.table.lookup channel.id = some index ∨ index ∈ client.told ∨ channel.cancelled = true ∨
    .finish ∈ channel.taken ++ channel.queue ∨
    ∃ error, client.failure = some error ∧ .failure error ∈ channel.taken ++ channel.queue

/-- What the consumer of a stream that was reported to have nothing left has read. -/
def Client.Reported (client : Client μ) (channel : Channel μ) : Prop :=
  channel.consumer = .stream → channel.exhausted = true → .finish ∈ channel.taken ∨
    ∃ error, client.failure = some error ∧ .failure error ∈ channel.taken

/-- What every attentive step keeps. -/
structure LinkInvariant (client : Client μ) : Prop where
  length_le : client.channels.length ≤ 2 ^ 32
  nextId : client.nextId = idAt client.channels.length
  ids : ∀ (index : Nat) (channel : Channel μ), client.channels[index]? = some channel →
    channel.id = idAt index
  entry : ∀ (id : StreamId) (index : Nat), client.table.lookup id = some index →
    ∃ channel, client.channels[index]? = some channel ∧ channel.id = id ∧ channel.opening ≠ .refused
  empty : client.drained = true → client.table = ∅
  recorded : client.Recorded
  accounted : ∀ (index : Nat) (channel : Channel μ), client.channels[index]? = some channel →
    channel.consumer = .stream → channel.held = true → client.Accounted index channel
  reported : ∀ (index : Nat) (channel : Channel μ), client.channels[index]? = some channel →
    client.Reported channel

theorem linkInvariant_initial : LinkInvariant (initial : Client μ) where
  length_le := by simp [initial]
  nextId := rfl
  ids := by simp [initial]
  entry := by simp [initial]
  empty := by simp [initial, drained]
  recorded := rfl
  accounted := by simp [initial]
  reported := by simp [initial]

variable {client : Client μ}

theorem LinkInvariant.failureSeen (h : LinkInvariant client) :
    FailureSeen client where
  reported index channel hchannel := h.reported index channel hchannel
  empty hdrained := by rw [h.empty hdrained]; rfl
  opened id index channel hlookup hchannel := by
    obtain ⟨other, hother, -, hopening⟩ := h.entry id index hlookup
    rw [hchannel] at hother
    rwa [some.inj hother]

variable {index : Nat} {channel : Channel μ}

/-- A change of one stream, and of its own entry at most, keeps the invariant. -/
theorem LinkInvariant.change {client next : Client μ} {f : Channel μ → Channel μ}
    (h : LinkInvariant client) (hchannel : client.channels[index]? = some channel)
    (hchannels : next.channels = client.channels.modify index f)
    (htable : next.table = client.table ∨ next.table = client.table.erase channel.id)
    (hnextId : next.nextId = client.nextId) (hfailure : next.failure = client.failure)
    (hdrained : next.drained = client.drained) (hrecorded : next.Recorded)
    (htold : ∀ other ≠ index, other ∈ client.told → other ∈ next.told)
    (hid : (f channel).id = channel.id)
    (hopening : (f channel).opening = .refused →
      channel.opening = .refused ∨ next.table = client.table.erase channel.id)
    (haccounted : (f channel).consumer = .stream → (f channel).held = true →
      next.Accounted index (f channel)) (hreported : next.Reported (f channel)) :
    LinkInvariant next := by
  have hlength : index < client.channels.length := (List.getElem?_eq_some_iff.1 hchannel).1
  have hcases : ∀ (place : Nat) (other : Channel μ), next.channels[place]? = some other →
      (place = index ∧ other = f channel) ∨
        (place ≠ index ∧ client.channels[place]? = some other) := by
    intro place other hother
    rw [hchannels, getElem?_modify_eq_some] at hother
    rcases hother with ⟨rfl, old, hold, rfl⟩ | hother
    · rw [hchannel] at hold
      exact .inl ⟨rfl, by rw [some.inj hold]⟩
    · exact .inr hother
  -- the entries of the other streams stand as they did
  have hlookup : ∀ place (other : Channel μ), place ≠ index →
      client.channels[place]? = some other →
      next.table.lookup other.id = client.table.lookup other.id := by
    intro place other hplace hother
    rcases htable with htable | htable
    · rw [htable]
    · have hne : other.id ≠ channel.id := by
        rw [h.ids place other hother, h.ids index channel hchannel]
        have hplaceLt : place < client.channels.length := (List.getElem?_eq_some_iff.1 hother).1
        have hle := h.length_le
        exact fun heq => hplace (idAt_inj (by omega) (by omega) heq)
      rw [htable, lookup_erase_ne hne]
  refine ⟨?_, ?_, ?_, ?_, ?_, hrecorded, ?_, ?_⟩
  · rw [hchannels, length_modify]
    exact h.length_le
  · rw [hnextId, hchannels, length_modify, h.nextId]
  · intro place other hother
    rcases hcases place other hother with ⟨rfl, rfl⟩ | ⟨-, hother⟩
    · rw [hid, h.ids place channel hchannel]
    · exact h.ids place other hother
  · intro id place hplace
    have hbefore : client.table.lookup id = some place := by
      rcases htable with htable | htable
      · rwa [htable] at hplace
      · rw [htable] at hplace
        by_cases heq : id = channel.id
        · rw [heq, lookup_erase] at hplace
          cases hplace
        · rwa [lookup_erase_ne heq] at hplace
    obtain ⟨other, hother, hotherId, hotherOpening⟩ := h.entry id place hbefore
    by_cases heq : place = index
    · subst heq
      rw [hchannel] at hother
      obtain rfl := some.inj hother
      refine ⟨f channel, ?_, by rw [hid, hotherId], fun hrefused => ?_⟩
      · rw [hchannels, getElem?_modify_eq_some]
        exact .inl ⟨rfl, channel, hchannel, rfl⟩
      · rcases hopening hrefused with hwas | herased
        · exact hotherOpening hwas
        · rw [herased, ← hotherId, lookup_erase] at hplace
          cases hplace
    · refine ⟨other, ?_, hotherId, hotherOpening⟩
      rw [hchannels, getElem?_modify_eq_some]
      exact .inr ⟨heq, hother⟩
  · intro hnext
    have hempty := h.empty (hdrained ▸ hnext)
    rcases htable with htable | htable <;> rw [htable, hempty]
    rfl
  · intro place other hother hconsumer hheld
    rcases hcases place other hother with ⟨rfl, rfl⟩ | ⟨hplace, hother⟩
    · exact haccounted hconsumer hheld
    · have hold := h.accounted place other hother hconsumer hheld
      unfold Accounted at hold ⊢
      rw [hlookup place other hplace hother, hfailure]
      rcases hold with hold | hold | hold
      · exact .inl hold
      · exact .inr (.inl (htold place hplace hold))
      · exact .inr (.inr hold)
  · intro place other hother
    rcases hcases place other hother with ⟨rfl, rfl⟩ | ⟨-, hother⟩
    · exact hreported
    · have hold := h.reported place other hother
      unfold Reported at hold ⊢
      rwa [hfailure]

/-- A step that leaves the streams as they are keeps the invariant, when the table loses only what
is still to be told and a recorded failure stays. -/
theorem LinkInvariant.reader_step {client next : Client μ} (h : LinkInvariant client)
    (hchannels : next.channels = client.channels) (hnextId : next.nextId = client.nextId)
    (htable : next.table = client.table ∨
      (next.table = ∅ ∧ next.told = client.table.entries.map (·.2)))
    (hfailure : ∀ error, client.failure = some error → next.failure = some error)
    (hempty : next.drained = true → next.table = ∅) (hrecorded : next.Recorded)
    (htold : ∀ index ∈ client.told, index < client.channels.length → index ∈ next.told) :
    LinkInvariant next := by
  refine ⟨by rw [hchannels]; exact h.length_le, by rw [hchannels, hnextId, h.nextId], ?_, ?_, hempty,
    hrecorded, ?_, ?_⟩
  · rw [hchannels]
    exact h.ids
  · rw [hchannels]
    intro id index hlookup
    rcases htable with htable | ⟨htable, -⟩
    · exact h.entry id index (htable ▸ hlookup)
    · rw [htable, lookup_empty] at hlookup
      cases hlookup
  · rw [hchannels]
    intro index channel hchannel hconsumer hheld
    rcases h.accounted index channel hchannel hconsumer hheld with
      hlookup | hmem | hcancelled | hfinish | ⟨error, herror, hmem⟩
    · rcases htable with htable | ⟨-, htell⟩
      · exact .inl (htable ▸ hlookup)
      · refine .inr (.inl ?_)
        rw [htell]
        exact List.mem_map.2 ⟨⟨channel.id, index⟩, AList.mem_lookup_iff.1 hlookup, rfl⟩
    · exact .inr (.inl (htold index hmem (List.getElem?_eq_some_iff.1 hchannel).1))
    · exact .inr (.inr (.inl hcancelled))
    · exact .inr (.inr (.inr (.inl hfinish)))
    · exact .inr (.inr (.inr (.inr ⟨error, hfailure error herror, hmem⟩)))
  · rw [hchannels]
    intro index channel hchannel hconsumer hexhausted
    rcases h.reported index channel hchannel hconsumer hexhausted with
      hfinish | ⟨error, herror, hmem⟩
    · exact .inl hfinish
    · exact .inr ⟨error, hfailure error herror, hmem⟩

/-- Registering a stream keeps the invariant while identifiers are fresh and the table has not
been drained. -/
theorem LinkInvariant.register {client next : Client μ} {limits : Limits} {consumer : Consumer}
    (h : LinkInvariant client) (hfresh : client.channels.length < 2 ^ 32)
    (hdrained : client.drained = false)
    (hnext : client.register limits consumer = some next) : LinkInvariant next := by
  unfold Client.register at hnext
  split_ifs at hnext with hchecked hfull
  · obtain rfl := Option.some.inj hnext
    exact h.reader_step rfl rfl (.inl rfl) (fun _ herror => herror) h.empty h.recorded
      (fun _ hmem _ => hmem)
  · obtain rfl := some.inj hnext
    have hne : ∀ (index : Nat) (other : Channel μ), client.channels[index]? = some other →
        other.id ≠ client.nextId := by
      intro index other hother heq
      have hlt := (List.getElem?_eq_some_iff.1 hother).1
      rw [h.ids index other hother, h.nextId] at heq
      have := idAt_inj (by omega) hfresh heq
      omega
    refine ⟨by rw [length_append]; exact hfresh, ?_, ?_, ?_, ?_, h.recorded, ?_, ?_⟩
    · rw [length_append, h.nextId, idAt_add_one]
      rfl
    · intro index channel hchannel
      rcases getElem?_concat_eq_some.1 hchannel with hold | ⟨rfl, rfl⟩
      · exact h.ids index channel hold
      · exact h.nextId
    · intro id index hlookup
      by_cases heq : id = client.nextId
      · subst heq
        rw [lookup_insert] at hlookup
        obtain rfl := some.inj hlookup
        exact ⟨_, getElem?_concat_eq_some.2 (.inr ⟨rfl, rfl⟩), rfl, by simp⟩
      · rw [lookup_insert_ne heq] at hlookup
        obtain ⟨channel, hchannel, hrest⟩ := h.entry id index hlookup
        exact ⟨channel, getElem?_concat_eq_some.2 (.inl hchannel), hrest⟩
    · intro hnow
      have hsame : client.drained = true := hnow
      rw [hdrained] at hsame
      cases hsame
    · intro index channel hchannel hconsumer hheld
      rcases getElem?_concat_eq_some.1 hchannel with hold | ⟨rfl, rfl⟩
      · rcases h.accounted index channel hold hconsumer hheld with hlookup | hrest
        · refine .inl ?_
          rw [lookup_insert_ne (hne index channel hold)]
          exact hlookup
        · exact .inr hrest
      · exact .inl (lookup_insert _)
    · intro index channel hchannel
      rcases getElem?_concat_eq_some.1 hchannel with hold | ⟨rfl, rfl⟩
      · exact h.reported index channel hold
      · intro _ hexhausted
        simp at hexhausted

theorem Client.Accounted.enqueue (h : client.Accounted index channel) (inbound : Inbound μ) :
    client.Accounted index { channel with queue := channel.queue ++ [inbound] } := by
  rcases h with hlookup | hmem | hcancelled | hfinish | ⟨error, herror, hmem⟩
  · exact .inl hlookup
  · exact .inr (.inl hmem)
  · exact .inr (.inr (.inl hcancelled))
  · refine .inr (.inr (.inr (.inl ?_)))
    simp only [mem_append] at hfinish ⊢
    exact hfinish.imp_right .inl
  · refine .inr (.inr (.inr (.inr ⟨error, herror, ?_⟩)))
    simp only [mem_append] at hmem ⊢
    exact hmem.imp_right .inl

variable {frames : List ClientFrame}

theorem LinkInvariant.sent {client next : Client μ} (h : LinkInvariant client)
    (hnext : client.sent index = some (next, frames)) : LinkInvariant next := by
  unfold Client.sent at hnext
  split at hnext
  · rename_i channel hchannel
    split_ifs at hnext
    obtain ⟨rfl, -⟩ := Prod.mk.inj (some.inj hnext)
    exact h.change hchannel rfl (.inl rfl) rfl rfl rfl h.recorded (fun _ _ hmem => hmem) rfl
      (fun hrefused => by simp at hrefused) (h.accounted index channel hchannel)
      (h.reported index channel hchannel)
  · cases hnext

theorem LinkInvariant.gone {client next : Client μ} (h : LinkInvariant client)
    (hnext : client.gone index = some next) : LinkInvariant next := by
  unfold Client.gone at hnext
  split at hnext
  · rename_i channel hchannel
    split_ifs at hnext
    obtain rfl := some.inj hnext
    exact h.change hchannel rfl (.inr rfl) rfl rfl rfl h.recorded (fun _ _ hmem => hmem) rfl
      (fun _ => .inr rfl) (fun _ hheld => by simp at hheld) (h.reported index channel hchannel)
  · cases hnext

/-- The reader's steps against the peer keep the invariant. -/
theorem LinkInvariant.read {client next : Client μ} {frame : Frame μ} (h : LinkInvariant client)
    (hnext : client.read frame = some next) : LinkInvariant next := by
  unfold Client.read at hnext
  split at hnext
  · rename_i hreader
    have hrecorded := h.recorded
    rw [Recorded, hreader] at hrecorded
    split at hnext
    · obtain rfl := some.inj hnext
      exact h.reader_step rfl rfl (.inl rfl) (fun _ herror => herror)
        (fun hdrained => by simp [drained] at hdrained) hrecorded
        (fun _ hmem _ => by simp [told, hreader] at hmem)
    · obtain rfl := some.inj hnext
      exact h
  · cases hnext

theorem LinkInvariant.cut {client next : Client μ} {error : ErrorValue} (h : LinkInvariant client)
    (hnext : client.cut error = some next) : LinkInvariant next := by
  unfold Client.cut at hnext
  split at hnext
  · rename_i hreader
    have hrecorded := h.recorded
    rw [Recorded, hreader] at hrecorded
    obtain rfl := some.inj hnext
    exact h.reader_step rfl rfl (.inl rfl) (fun _ herror => herror)
      (fun hdrained => by simp [drained] at hdrained) hrecorded
      (fun _ hmem _ => by simp [told, hreader] at hmem)
  · cases hnext

variable {window : Nat}

theorem LinkInvariant.deliver {client next : Client μ} (h : LinkInvariant client)
    (hnext : client.deliver window = some next) : LinkInvariant next := by
  unfold Client.deliver at hnext
  split at hnext
  · rename_i index frame hreader
    have hrecorded := h.recorded
    rw [Recorded, hreader] at hrecorded
    have htold : ∀ other, other ∉ client.told := by simp [told, hreader]
    split at hnext
    · rename_i channel hchannel
      split_ifs at hnext
      · obtain rfl := some.inj hnext
        refine h.change hchannel rfl (.inl rfl) rfl rfl (by simp [drained, hreader])
          hrecorded (fun _ _ hmem => absurd hmem (htold _)) rfl .inl
          (fun hconsumer hheld => ?_) (h.reported index channel hchannel)
        have hold := (h.accounted index channel hchannel hconsumer hheld).enqueue frame.inbound
        rcases hold with hlookup | hmem | hrest
        · exact .inl hlookup
        · exact absurd hmem (htold _)
        · exact .inr (.inr hrest)
      · obtain rfl := some.inj hnext
        exact h.reader_step rfl rfl (.inl rfl) (fun _ herror => herror)
          (fun hdrained => by simp [drained] at hdrained) hrecorded
          (fun _ hmem _ => absurd hmem (htold _))
    · cases hnext
  · cases hnext

/-- Failing the link keeps the invariant, when every stream that has not ended has room for the
failure. -/
theorem LinkInvariant.fail {client next : Client μ} (h : LinkInvariant client)
    (hattentive : Attentive window client .fail) (hnext : client.fail window = some next) :
    LinkInvariant next := by
  have hrecorded := h.recorded
  unfold Client.fail at hnext
  split at hnext
  · rename_i error hreader
    rw [Recorded, hreader] at hrecorded
    obtain rfl := some.inj hnext
    exact h.reader_step rfl rfl (.inl rfl) (fun _ herror => herror)
      (fun hdrained => by simp [drained] at hdrained) hrecorded
      (fun _ hmem _ => by simp [told, hreader] at hmem)
  · rename_i error hreader
    rw [Recorded, hreader] at hrecorded
    have hnone : client.failure = none := hrecorded
    obtain rfl := some.inj hnext
    exact h.reader_step rfl rfl (.inl rfl) (fun _ herror => by simp [hnone] at herror)
      (fun hdrained => by simp [drained] at hdrained) (by simp [Recorded, hnone])
      (fun _ hmem _ => by simp [told, hreader] at hmem)
  · rename_i error hreader
    rw [Recorded, hreader] at hrecorded
    obtain rfl := some.inj hnext
    exact h.reader_step rfl rfl (.inr ⟨rfl, rfl⟩) (fun _ herror => herror) (fun _ => rfl) hrecorded
      (fun _ hmem _ => by simp [told, hreader] at hmem)
  · rename_i error index remaining hreader
    rw [Recorded, hreader] at hrecorded
    have hfailure : client.failure = some error := hrecorded
    have htold : client.told = index :: remaining := by rw [told, hreader]
    have hdrained : client.drained = true := by rw [drained, hreader]
    obtain rfl := some.inj hnext
    cases hchannel : client.channels[index]? with
    | none =>
      rw [getElem?_eq_none_iff] at hchannel
      refine h.reader_step (modify_eq_self hchannel) rfl (.inl rfl) (fun _ herror => herror)
        (fun _ => h.empty hdrained) hfailure fun other hmem hlt => ?_
      rw [htold] at hmem
      rcases mem_cons.1 hmem with rfl | hmem
      · omega
      · exact hmem
    | some channel =>
      refine h.change hchannel rfl (.inl rfl) rfl rfl hdrained.symm hfailure
        (fun other hne hmem => ?_) ?_ (fun hrefused => .inl ?_) (fun hconsumer hheld => ?_) ?_
      · rw [htold] at hmem
        exact (mem_cons.1 hmem).resolve_left hne
      · split_ifs <;> rfl
      · split_ifs at hrefused <;> exact hrefused
      · split_ifs at hconsumer hheld ⊢ with hroom
        · refine .inr (.inr (.inr (.inr ⟨error, hfailure, ?_⟩)))
          simp
        · -- a full queue is passed over: the condition leaves only a stream that has ended
          by_cases hcancelled : channel.cancelled = true
          · exact .inr (.inr (.inl hcancelled))
          · refine .inr (.inr (.inr (.inl ?_)))
            by_contra hfinish
            have hfree := hattentive error index remaining channel hreader hchannel hconsumer hheld
              (by simpa using hcancelled) hfinish
            exact hroom (by simp [hheld, hfree])
      · have hreported := h.reported index channel hchannel
        split_ifs <;> exact hreported
  · rename_i error hreader
    rw [Recorded, hreader] at hrecorded
    have hdrained : client.drained = true := by rw [drained, hreader]
    obtain rfl := some.inj hnext
    exact h.reader_step rfl rfl (.inl rfl) (fun _ herror => herror) (fun _ => h.empty hdrained)
      trivial (fun _ hmem _ => by simp [told, hreader] at hmem)
  · cases hnext

/-- A consumer that takes a message keeps the invariant. -/
theorem LinkInvariant.take {window index : Nat} {inbound : Inbound μ} {rest : List (Inbound μ)}
    (h : LinkInvariant client) (hchannel : client.channels[index]? = some channel)
    (hqueue : channel.queue = inbound :: rest) :
    LinkInvariant (client.take window index channel inbound rest).1 := by
  -- what was queued and is now taken is still among the two
  have hmoved : ∀ item, item ∈ channel.taken ++ channel.queue ↔
      item ∈ channel.taken ++ [inbound] ++ rest := by
    intro item
    rw [hqueue]
    simp
  have hreported : ∀ {next : Channel μ}, next.consumer = channel.consumer →
      next.taken = channel.taken ++ [inbound] → next.exhausted = channel.exhausted →
      client.Reported next := by
    intro next hconsumer htaken hexhausted hstream hnext
    rw [hconsumer] at hstream
    rw [hexhausted] at hnext
    rw [htaken]
    rcases h.reported index channel hchannel hstream hnext with hfinish | ⟨error, herror, hmem⟩
    · exact .inl (mem_append_left _ hfinish)
    · exact .inr ⟨error, herror, mem_append_left _ hmem⟩
  have haccounted : ∀ {next : Channel μ}, next.id = channel.id →
      next.consumer = channel.consumer → next.held = channel.held →
      next.cancelled = channel.cancelled → next.taken = channel.taken ++ [inbound] →
      next.queue = rest → next.consumer = .stream → next.held = true →
      client.Accounted index next := by
    intro next hid hconsumer hheld hcancelled htaken hrest hstream hnextHeld
    have hold := h.accounted index channel hchannel (hconsumer ▸ hstream) (hheld ▸ hnextHeld)
    unfold Accounted at hold ⊢
    rw [hid, hcancelled, htaken, hrest]
    simpa only [hmoved] using hold
  unfold Client.take
  dsimp only
  split
  · -- the end was read, and is why the entry goes
    refine h.change hchannel rfl (.inr rfl) rfl rfl rfl h.recorded (fun _ _ hmem => hmem) rfl .inl
      (fun _ _ => ?_) fun _ _ => .inl (by simp)
    exact .inr (.inr (.inr (.inl (by simp))))
  · rename_i hact
    refine h.change hchannel rfl (.inr rfl) rfl rfl rfl h.recorded (fun _ _ hmem => hmem) rfl .inl
      (fun hstream _ => ?_) fun hstream => ?_
    · exact absurd (hact.symm.trans hstream) (by decide)
    · exact absurd (hact.symm.trans hstream) (by decide)
  · rename_i hact _ _
    refine h.change hchannel rfl (.inl rfl) rfl rfl rfl h.recorded (fun _ _ hmem => hmem) rfl .inl
      (fun hstream _ => ?_) fun hstream => ?_
    · exact absurd (hact.symm.trans hstream) (by decide)
    · exact absurd (hact.symm.trans hstream) (by decide)
  · unfold acknowledge
    dsimp only
    split_ifs
    · exact h.change hchannel rfl (.inl rfl) rfl rfl rfl h.recorded (fun _ _ hmem => hmem) rfl .inl
        (haccounted rfl rfl rfl rfl rfl rfl) (hreported rfl rfl rfl)
    · exact h.change hchannel rfl (.inl rfl) rfl rfl rfl h.recorded (fun _ _ hmem => hmem) rfl .inl
        (haccounted rfl rfl rfl rfl rfl rfl) (hreported rfl rfl rfl)

theorem Client.hasSender_eq_false (client : Client μ) (h : client.hasSender index = false) :
    index ∉ client.table.entries.map (·.2) ∧ index ∉ client.told := by
  unfold hasSender at h
  rw [Bool.or_eq_false_iff, decide_eq_false_iff_not] at h
  refine ⟨h.1, fun hmem => ?_⟩
  unfold told at hmem
  split at hmem
  · rename_i hreader
    simp [hreader, hmem] at h
  · cases hmem

/-- A consumer that asks for the next message keeps the invariant, unless it has cancelled the
stream itself. -/
theorem LinkInvariant.recv {client next : Client μ} {window index : Nat} (h : LinkInvariant client)
    (hattentive : Attentive window client (.recv index))
    (hnext : client.recv window index = some (next, frames)) : LinkInvariant next := by
  unfold Client.recv at hnext
  split at hnext
  · rename_i channel hchannel
    by_cases hready : (channel.opening = .opened && channel.held &&
        !(channel.consumer = .act && channel.finished)) = true
    · rw [if_pos hready] at hnext
      simp only [Bool.and_eq_true, decide_eq_true_eq] at hready
      split at hnext
      · rename_i inbound rest hqueue
        obtain rfl : (client.take window index channel inbound rest).1 = next := by
          rw [some.inj hnext]
        exact h.take hchannel hqueue
      · rename_i hqueue
        split_ifs at hnext with hsender hact
        · obtain ⟨rfl, -⟩ := Prod.mk.inj (some.inj hnext)
          refine h.change hchannel rfl (.inr rfl) rfl rfl rfl h.recorded (fun _ _ hmem => hmem) rfl
            .inl (fun hstream _ => ?_) fun hstream => ?_
          · exact absurd (hact.symm.trans hstream) (by decide)
          · exact absurd (hact.symm.trans hstream) (by decide)
        · obtain ⟨rfl, -⟩ := Prod.mk.inj (some.inj hnext)
          refine h.change hchannel rfl (.inl rfl) rfl rfl rfl h.recorded (fun _ _ hmem => hmem) rfl
            .inl (h.accounted index channel hchannel) fun hstream _ => ?_
          -- nobody holds a sender and nothing is queued, so what accounts for the stream was read
          rw [Bool.not_eq_true] at hsender
          obtain ⟨hnotMem, hnotTold⟩ := client.hasSender_eq_false hsender
          have hnot := hattentive channel hchannel
          rcases h.accounted index channel hchannel hstream hready.1.2 with
            hlookup | hmem | hcancelled | hfinish | ⟨error, herror, hmem⟩
          · refine absurd ?_ hnotMem
            exact mem_map.2 ⟨⟨channel.id, index⟩, mem_lookup_iff.1 hlookup, rfl⟩
          · exact absurd hmem hnotTold
          · rw [hnot] at hcancelled
            cases hcancelled
          · rw [hqueue, append_nil] at hfinish
            exact .inl hfinish
          · rw [hqueue, append_nil] at hmem
            exact .inr ⟨error, herror, hmem⟩
    · rw [if_neg hready] at hnext
      cases hnext
  · cases hnext

theorem LinkInvariant.cancel {client next : Client μ} (h : LinkInvariant client)
    (hnext : client.cancel index = some (next, frames)) : LinkInvariant next := by
  unfold Client.cancel at hnext
  split at hnext
  · rename_i channel hchannel
    split_ifs at hnext
    · obtain ⟨rfl, -⟩ := Prod.mk.inj (some.inj hnext)
      exact h
    · obtain ⟨rfl, -⟩ := Prod.mk.inj (some.inj hnext)
      exact h.change hchannel rfl (.inr rfl) rfl rfl rfl h.recorded (fun _ _ hmem => hmem) rfl .inl
        (fun _ _ => .inr (.inr (.inl rfl))) (h.reported index channel hchannel)
  · cases hnext

theorem LinkInvariant.drop {client next : Client μ} (h : LinkInvariant client)
    (hnext : client.drop index = some next) : LinkInvariant next := by
  unfold Client.drop at hnext
  split at hnext
  · rename_i channel hchannel
    split_ifs at hnext
    obtain rfl := some.inj hnext
    exact h.change hchannel rfl (.inl rfl) rfl rfl rfl h.recorded (fun _ _ hmem => hmem) rfl .inl
      (fun _ hheld => by simp at hheld) (h.reported index channel hchannel)
  · cases hnext

/-- **One attentive step** keeps the invariant. -/
theorem LinkInvariant.step {client next : Client μ} {limits : Limits} {label : ClientStep μ}
    (h : LinkInvariant client) (hattentive : Attentive window client label)
    (hnext : (link limits window).next client label = some next) : LinkInvariant next := by
  cases label with
  | check =>
    change client.check = some next at hnext
    unfold check at hnext
    split_ifs at hnext
    obtain rfl := some.inj hnext
    exact h.reader_step rfl rfl (.inl rfl) (fun _ herror => herror) h.empty h.recorded
      (fun _ hmem _ => hmem)
  | register consumer => exact h.register hattentive.1 hattentive.2 hnext
  | sent index =>
    obtain ⟨⟨client', frames⟩, hsent, rfl⟩ := map_eq_some_iff.1 hnext
    exact h.sent hsent
  | unencodable index => exact hattentive.elim
  | gone index => exact h.gone hnext
  | read frame => exact h.read hnext
  | deliver => exact h.deliver hnext
  | cut error => exact h.cut hnext
  | fail => exact h.fail hattentive hnext
  | recv index =>
    obtain ⟨⟨client', frames⟩, hrecv, rfl⟩ := map_eq_some_iff.1 hnext
    exact h.recv hattentive hrecv
  | cancel index =>
    obtain ⟨⟨client', frames⟩, hcancel, rfl⟩ := map_eq_some_iff.1 hnext
    exact h.cancel hcancel
  | drop index => exact h.drop hnext

end Invariant

/-- **A cut stream does not look complete** in any attentive run of a link, whatever the peer sends:
a stream that was reported to have nothing left was ended by the peer or has delivered the failure
of the link, a link that has failed has no streams, and an `open` that failed left none behind. -/
theorem failureSeen_of_reached {μ : Type} (limits : Limits) (window : Nat) (client : Client μ)
    (h : (link limits window).Reached (· = initial) (Attentive window) client) :
    FailureSeen client := by
  have hinv : LinkInvariant client :=
    h.invariant (fun _ hstart => hstart ▸ linkInvariant_initial)
      fun _ _ _ hinv hattentive hnext => hinv.step hattentive hnext
  exact hinv.failureSeen

/-! ### Runs of a link -/

/-- What the transport of these runs fails with. -/
def closed : ErrorValue :=
  unreachable "the link is closed"

/-- A stream is opened, the link fails, and the consumer reads the failure and then the end. -/
def failAndRead : List (ClientStep Unit) :=
  [.check, .register .stream, .sent 0, .cut closed, .fail, .fail, .fail, .fail, .recv 0, .recv 0]

theorem failureSeen_failAndRead :
    ∃ client : Client Unit,
      (link Limits.default 1).run initial failAndRead = some client ∧ FailureSeen client := by
  refine ⟨_, rfl, failureSeen_of_reached Limits.default 1 _ ?_⟩
  refine .step (.recv 0) (.step (.recv 0) (.step .fail (.step .fail (.step .fail (.step .fail
    (.step (.cut closed) (.step (.sent 0) (.step (.register .stream) (.step .check (.start rfl)
    trivial rfl) ⟨by decide, rfl⟩ rfl) trivial rfl) trivial rfl) ?_ rfl) ?_ rfl) ?_ rfl) ?_ rfl)
    ?_ rfl) ?_ rfl
  · intro error index remaining channel hreader
    cases hreader
  · intro error index remaining channel hreader
    cases hreader
  · intro error index remaining channel hreader
    cases hreader
  · intro error index remaining channel hreader hchannel
    cases hreader
    cases hchannel
    intros
    rfl
  · intro channel hchannel
    cases hchannel
    rfl
  · intro channel hchannel
    cases hchannel
    rfl

/-- The link fails while the queue of a stream is full, and the consumer reads on to the end. -/
def failWhenFull : List (ClientStep Unit) :=
  [.check, .register .stream, .sent 0, .read ⟨1, .content ()⟩, .deliver, .read ⟨1, .content ()⟩,
    .deliver, .cut closed, .fail, .fail, .fail, .fail, .fail, .recv 0, .recv 0, .recv 0]

/-- The link fails after `open` has found it alive and before the stream is registered. -/
def registerLate : List (ClientStep Unit) :=
  [.check, .cut closed, .fail, .fail, .fail, .fail, .register .stream]

/-- The message of a stream does not encode. -/
def openUnencodable : List (ClientStep Unit) :=
  [.check, .register .stream, .unencodable 0]

/-- **A cut stream can look complete.** A stream ends for its consumer with neither an end nor the
failure among what it read, a link that has failed has a stream, and an `open` that failed has left
one behind. -/
theorem not_failureSeen_of_reached :
    (∃ client : Client Unit,
      (link Limits.default 1).Reached (· = initial) (fun _ _ => True) client ∧
        ∃ channel : Channel Unit, client.channels[0]? = some channel ∧
          channel.consumer = .stream ∧ channel.exhausted = true ∧
          channel.taken = [.content (), .content ()]) ∧
    (∃ client : Client Unit,
      (link Limits.default 1).Reached (· = initial) (fun _ _ => True) client ∧
        client.drained = true ∧ client.table.entries ≠ []) ∧
    ∃ client : Client Unit,
      (link Limits.default 1).Reached (· = initial) (fun _ _ => True) client ∧
        ∃ channel : Channel Unit, client.table.lookup 1 = some 0 ∧
          client.channels[0]? = some channel ∧ channel.opening = .refused := by
  refine ⟨⟨_, .of_run failWhenFull (.start rfl) (fun _ _ _ => trivial) rfl, _, rfl, rfl, rfl,
    rfl⟩, ⟨_, .of_run registerLate (.start rfl) (fun _ _ _ => trivial) rfl, rfl, ?_⟩,
    _, .of_run openUnencodable (.start rfl) (fun _ _ _ => trivial) rfl, _, rfl, rfl, rfl⟩
  exact cons_ne_nil _ _

end OnoSendai.Link
