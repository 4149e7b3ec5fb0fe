import Mathlib.Data.List.Perm.Subperm
import OnoSendai.Lib.Indexed
import OnoSendai.Lib.Transition
import OnoSendai.Link.Agent

/-!
# The stream table and the tasks behind it

A session is an agent with a peer that may send anything. This file relates the agent's table to
the bodies that run: which body an entry belongs to, how many bodies there are at once, and when a
peer that counts its own streams is refused.

An entry is taken out under the identifier of the stream, by a cancellation and by the end of the
body alike. The two get out of step with the bodies when an identifier is used again while an
earlier body under it is still there, when cancelled bodies linger, and when a start is handled
between the end of a stream and the removal of its entry.
-/

namespace OnoSendai.Link

open Interaction Agent Phase
open List hiding filter_filter keys mem_keys
open Option hiding filter_filter
open AList hiding keys mem_keys

/-! ### Sessions -/

/-- A frame of the peer. A start carries how many streams the peer counts as open with it. -/
inductive PeerFrame (ρ : Type)
  | start (id : StreamId) (job : ρ) (counted : Nat)
  | cancel (id : StreamId)
  | credit (id : StreamId) (granted : Nat)

/-- Whether a frame starts a stream. -/
def PeerFrame.isStart {ρ : Type} : PeerFrame ρ → Bool
  | start _ _ _ => true
  | _ => false

/-- An agent and its peer: the frames under way in both directions, oldest first, the streams the
peer counts as open, and, for each start the agent refused, how many the peer counted with it. -/
structure Session (ρ μ : Type) where
  agent : Agent ρ
  toAgent : List (PeerFrame ρ)
  toPeer : List (Frame μ)
  opened : List StreamId
  refused : List Nat

/-- The steps of a session: the peer sends or reads a frame, the agent handles one, or a body
takes a step. -/
inductive SessionStep (ρ μ : Type)
  | sendStart (id : StreamId) (job : ρ)
  | sendCancel (id : StreamId)
  | sendCredit (id : StreamId) (granted : Nat)
  | receive
  | handle
  | poll (index : Nat)
  | spend (index : Nat)
  | send (index : Nat) (inbound : Inbound μ)
  | lose (index : Nat)
  | finish (index : Nat)
  | release (index : Nat)

section Session

variable {ρ μ : Type} (limits : Limits) (window : Nat)

namespace Session

/-- A session whose handshake is over. -/
def initial : Session ρ μ where
  agent := .empty
  toAgent := []
  toPeer := []
  opened := []
  refused := []

/-- The agent handles a frame. -/
def handleFrame (session : Session ρ μ) (rest : List (PeerFrame ρ)) : PeerFrame ρ → Session ρ μ
  | .start id job counted =>
    let answer := session.agent.start limits window id job
    { session with
      agent := answer.1
      toAgent := rest
      toPeer := session.toPeer ++ answer.2
      refused := if session.agent.admits limits id then session.refused
        else counted :: session.refused }
  | .cancel id => { session with agent := session.agent.cancel id, toAgent := rest }
  | .credit id granted =>
    { session with agent := session.agent.credit limits id granted, toAgent := rest }

/-- The peer reads a frame: a stream is open until its end has been read. -/
def readFrame (session : Session ρ μ) (rest : List (Frame μ)) (frame : Frame μ) : Session ρ μ :=
  { session with
    toPeer := rest
    opened := if frame.inbound.isFinish then session.opened.erase frame.stream
      else session.opened }

/-- What a step does. -/
def next (session : Session ρ μ) : SessionStep ρ μ → Option (Session ρ μ)
  | .sendStart id job =>
    some { session with
      toAgent := session.toAgent ++ [.start id job (session.opened.length + 1)]
      opened := id :: session.opened }
  | .sendCancel id => some { session with toAgent := session.toAgent ++ [.cancel id] }
  | .sendCredit id granted =>
    some { session with toAgent := session.toAgent ++ [.credit id granted] }
  | .receive =>
    match session.toPeer with
    | frame :: rest => some (session.readFrame rest frame)
    | [] => none
  | .handle =>
    match session.toAgent with
    | frame :: rest => some (session.handleFrame limits window rest frame)
    | [] => none
  | .poll index => (session.agent.poll index).map fun agent => { session with agent }
  | .spend index => (session.agent.spend index).map fun agent => { session with agent }
  | .send index inbound =>
    (session.agent.send index inbound).map fun (agent, frames) =>
      { session with agent, toPeer := session.toPeer ++ frames }
  | .lose index => (session.agent.lose index).map fun agent => { session with agent }
  | .finish index =>
    (session.agent.finish index).map fun (agent, frames) =>
      { session with agent, toPeer := session.toPeer ++ frames }
  | .release index => (session.agent.release index).map fun agent => { session with agent }

end Session

/-- The system of an agent and its peer. -/
def session : Transition (Session ρ μ) (SessionStep ρ μ) where
  next := Session.next limits window

/-! ### What is meant to hold, and when it does -/

/-- The table, the bodies and the refusals are in step: a body that runs and was not cancelled has
its own entry, there are no more bodies than streams allowed, and only a start with which the peer
counts more than that was ever refused. -/
structure InStep (session : Session ρ μ) : Prop where
  registered : ∀ index body, session.agent.bodies[index]? = some body →
    body.phase.isOpen = true → body.cancelled = false →
    session.agent.table.lookup body.stream = some index
  bounded : session.agent.unfinished.length ≤ limits.maxStreams
  refusals : ∀ counted ∈ session.refused, limits.maxStreams < counted

/-- The cancelled bodies whose task is still there. -/
def Agent.lingering (agent : Agent ρ) : List (Body ρ) :=
  agent.unfinished.filter (·.cancelled)

/-- The condition on a start frame: no task is left under its identifier, a table with room has
room for the lingering bodies too, and a table without room holds no stream that has ended. -/
structure OrderlyStart (agent : Agent ρ) (id : StreamId) : Prop where
  fresh : ∀ body ∈ agent.unfinished, body.stream ≠ id
  room : agent.size < limits.maxStreams →
    agent.size + agent.lingering.length < limits.maxStreams
  full : limits.maxStreams ≤ agent.size → ∀ id index body,
    agent.table.lookup id = some index → agent.bodies[index]? = some body →
    body.phase.isOpen = true

/-- A step is orderly unless it handles a start that is not. -/
def Orderly (session : Session ρ μ) : SessionStep ρ μ → Prop
  | .handle => ∀ id job counted rest,
    session.toAgent = .start id job counted :: rest → OrderlyStart limits session.agent id
  | _ => True

end Session

/-! ### The table and the bodies -/

/-- The table lists exactly the bodies that are still there and were not cancelled, and no two
bodies that are still there share an identifier. -/
structure Matches {ρ : Type} (agent : Agent ρ) : Prop where
  entry : ∀ id index, agent.table.lookup id = some index → ∃ body,
    agent.bodies[index]? = some body ∧ body.stream = id ∧ body.phase.isUnfinished = true ∧
      body.cancelled = false
  registered : ∀ (index : Nat) (body : Body ρ), agent.bodies[index]? = some body →
    body.phase.isUnfinished = true → body.cancelled = false →
    agent.table.lookup body.stream = some index
  distinct : ∀ (i j : Nat) (a b : Body ρ), agent.bodies[i]? = some a → agent.bodies[j]? = some b →
    a.phase.isUnfinished = true → b.phase.isUnfinished = true → a.stream = b.stream → i = j

variable {id : StreamId}

section Matches

open Indexed

variable {ρ : Type} {agent : Agent ρ} {limits : Limits}

theorem matches_empty : Matches (empty : Agent ρ) where
  entry _ _ h := by simp [empty] at h
  registered _ _ h := by simp [empty] at h
  distinct _ _ _ _ h := by simp [empty] at h

theorem Phase.isUnfinished_of_isOpen {phase : Phase} (h : phase.isOpen = true) :
    phase.isUnfinished = true := by
  cases phase <;> simp_all [isOpen, isUnfinished]

/-- The bodies that are still there are the registered and the lingering ones. -/
theorem Matches.length_unfinished_le (h : Matches agent) :
    agent.unfinished.length ≤ agent.size + agent.lingering.length := by
  have hsplit := List.length_eq_length_filter_add (l := agent.unfinished) (·.cancelled)
  have hsubset : (agent.unfinished.filter fun body => !body.cancelled).map (·.stream) ⊆
      agent.table.keys := by
    intro id hid
    obtain ⟨body, hbody, rfl⟩ := mem_map.1 hid
    obtain ⟨hbody, hcancelled⟩ := mem_filter.1 hbody
    obtain ⟨hbody, hunfinished⟩ := mem_filter.1 hbody
    obtain ⟨index, hindex⟩ := mem_iff_getElem?.1 hbody
    have hlookup := h.registered index body hindex hunfinished (by simpa using hcancelled)
    rw [← AList.mem_keys, ← lookup_isSome, hlookup]
    rfl
  have hnodup : ((agent.unfinished.filter fun body => !body.cancelled).map (·.stream)).Nodup := by
    rw [unfinished, List.filter_filter]
    refine nodup_map_filter fun i j a b hi hj ha hb hstream => ?_
    simp only [Bool.and_eq_true] at ha hb
    exact h.distinct i j a b hi hj ha.2 hb.2 hstream
  have hle := (subperm_of_subset hnodup hsubset).length_le
  rw [length_map, AList.keys, List.keys, length_map] at hle
  rw [size, lingering]
  omega

theorem Matches.size_le_streaming (h : Matches agent)
    (hopen : ∀ id index body, agent.table.lookup id = some index →
      agent.bodies[index]? = some body → body.phase.isOpen = true) :
    agent.size ≤ agent.streaming.length := by
  have hsubset : agent.table.keys ⊆ agent.streaming.map (·.stream) := by
    intro id hid
    rw [← AList.mem_keys, ← AList.lookup_isSome, Option.isSome_iff_exists] at hid
    obtain ⟨index, hlookup⟩ := hid
    obtain ⟨body, hbody, hstream, -, -⟩ := h.entry id index hlookup
    have hmem : body ∈ agent.streaming :=
      mem_filter.2 ⟨mem_of_getElem? hbody, hopen id index body hlookup hbody⟩
    exact mem_map.2 ⟨body, hmem, hstream⟩
  have hle := (List.subperm_of_subset agent.table.keys_nodup hsubset).length_le
  rwa [List.length_map, AList.keys, List.keys, List.length_map] at hle

/-- A step of a body that keeps its identifier, its token and whether it is still there keeps the
table matched. -/
theorem Matches.modify (h : Matches agent) (index : Nat) {f : Body ρ → Body ρ}
    (hstream : ∀ body, (f body).stream = body.stream)
    (hcancelled : ∀ body, (f body).cancelled = body.cancelled)
    (hphase : ∀ body, agent.bodies[index]? = some body →
      (f body).phase.isUnfinished = body.phase.isUnfinished) :
    Matches { agent with bodies := agent.bodies.modify index f } := by
  -- every body after the step stands where one with the same identifier, token and life stood
  have hbefore : ∀ (place : Nat) (body : Body ρ),
      (agent.bodies.modify index f)[place]? = some body → ∃ old,
        agent.bodies[place]? = some old ∧ body.stream = old.stream ∧
          body.cancelled = old.cancelled ∧
          body.phase.isUnfinished = old.phase.isUnfinished := by
    intro place body hbody
    rcases getElem?_modify_eq_some.1 hbody with ⟨rfl, old, hold, rfl⟩ | ⟨-, hold⟩
    · exact ⟨old, hold, hstream old, hcancelled old, hphase old hold⟩
    · exact ⟨body, hold, rfl, rfl, rfl⟩
  refine ⟨fun id place hlookup => ?_, fun place body hbody hunfinished hnot => ?_,
    fun i j a b hi hj ha hb heq => ?_⟩
  · obtain ⟨old, hold, hid, hunfinished, hnot⟩ := h.entry id place hlookup
    by_cases hplace : place = index
    · subst hplace
      refine ⟨f old, getElem?_modify_eq_some.2 (.inl ⟨rfl, old, hold, rfl⟩), ?_, ?_, ?_⟩
      · rw [hstream, hid]
      · rw [hphase old hold, hunfinished]
      · rw [hcancelled, hnot]
    · exact ⟨old, getElem?_modify_eq_some.2 (.inr ⟨hplace, hold⟩), hid, hunfinished, hnot⟩
  · obtain ⟨old, hold, hid, hcancelledOld, hphaseOld⟩ := hbefore place body hbody
    rw [hid]
    exact h.registered place old hold (hphaseOld ▸ hunfinished) (hcancelledOld ▸ hnot)
  · obtain ⟨oldA, holdA, hidA, -, hphaseA⟩ := hbefore i a hi
    obtain ⟨oldB, holdB, hidB, -, hphaseB⟩ := hbefore j b hj
    exact h.distinct i j oldA oldB holdA holdB (hphaseA ▸ ha) (hphaseB ▸ hb)
      (by rw [← hidA, ← hidB, heq])

/-- Registering a stream under an identifier no task is left under keeps the table matched. -/
theorem Matches.register (h : Matches agent) {body : Body ρ}
    (hfresh : ∀ other ∈ agent.unfinished, other.stream ≠ body.stream)
    (hunfinished : body.phase.isUnfinished = true) (hnot : body.cancelled = false) :
    Matches { table := agent.table.insert body.stream agent.bodies.length,
              bodies := agent.bodies ++ [body] } := by
  have hne : ∀ (index : Nat) (other : Body ρ), agent.bodies[index]? = some other →
      other.phase.isUnfinished = true → other.stream ≠ body.stream := by
    intro index other hother hlive
    exact hfresh other (mem_filter.2 ⟨mem_of_getElem? hother, hlive⟩)
  refine ⟨fun id index hlookup => ?_, fun index other hother hlive hnotOther => ?_,
    fun i j a b hi hj ha hb heq => ?_⟩
  · by_cases hid : id = body.stream
    · subst hid
      rw [lookup_insert] at hlookup
      obtain rfl := some.inj hlookup
      exact ⟨body, getElem?_concat_eq_some.2 (.inr ⟨rfl, rfl⟩), rfl, hunfinished, hnot⟩
    · rw [lookup_insert_ne hid] at hlookup
      obtain ⟨other, hother, hrest⟩ := h.entry id index hlookup
      exact ⟨other, getElem?_concat_eq_some.2 (.inl hother), hrest⟩
  · rcases getElem?_concat_eq_some.1 hother with hold | ⟨rfl, rfl⟩
    · rw [lookup_insert_ne (hne index other hold hlive)]
      exact h.registered index other hold hlive hnotOther
    · exact lookup_insert _
  · rcases getElem?_concat_eq_some.1 hi with hold | ⟨rfl, rfl⟩ <;>
      rcases getElem?_concat_eq_some.1 hj with hold' | ⟨rfl, rfl⟩
    · exact h.distinct i j a b hold hold' ha hb heq
    · exact absurd heq (hne i a hold ha)
    · exact absurd heq.symm (hne j b hold' hb)
    · rfl

/-- Cancelling a registered stream keeps the table matched. -/
theorem Matches.cancel (h : Matches agent) (id : StreamId) : Matches (agent.cancel id) := by
  unfold Agent.cancel
  split
  · rename_i index hlookup
    obtain ⟨target, htarget, htargetId, htargetLive, -⟩ := h.entry id index hlookup
    refine ⟨fun other place hother => ?_, fun place body hbody hlive hnot => ?_,
      fun i j a b hi hj ha hb heq => ?_⟩
    · have hne : other ≠ id := by
        rintro rfl
        rw [lookup_erase] at hother
        cases hother
      rw [lookup_erase_ne hne] at hother
      obtain ⟨body, hbody, hbodyId, hrest⟩ := h.entry other place hother
      have hplace : place ≠ index := by
        rintro rfl
        rw [htarget] at hbody
        exact hne (by rw [← hbodyId, ← htargetId, some.inj hbody])
      exact ⟨body, getElem?_modify_eq_some.2 (.inr ⟨hplace, hbody⟩), hbodyId, hrest⟩
    · rcases getElem?_modify_eq_some.1 hbody with ⟨rfl, old, hold, rfl⟩ | ⟨hplace, hold⟩
      · simp at hnot
      · have hne : body.stream ≠ id := by
          intro heq
          exact hplace (h.distinct place index body target hold htarget hlive htargetLive
            (heq.trans htargetId.symm))
        rw [lookup_erase_ne hne]
        exact h.registered place body hold hlive hnot
    · have hbefore : ∀ (place : Nat) (body : Body ρ), (agent.bodies.modify index fun body =>
          { body with cancelled := true, closed := true })[place]? = some body → ∃ old,
            agent.bodies[place]? = some old ∧ body.stream = old.stream ∧
              body.phase = old.phase := by
        intro place body hbody
        rcases getElem?_modify_eq_some.1 hbody with ⟨rfl, old, hold, rfl⟩ | ⟨-, hold⟩
        · exact ⟨old, hold, rfl, rfl⟩
        · exact ⟨body, hold, rfl, rfl⟩
      obtain ⟨oldA, holdA, hidA, hphaseA⟩ := hbefore i a hi
      obtain ⟨oldB, holdB, hidB, hphaseB⟩ := hbefore j b hj
      exact h.distinct i j oldA oldB holdA holdB (hphaseA ▸ ha) (hphaseB ▸ hb)
        (by rw [← hidA, ← hidB, heq])
  · exact h

variable {index : Nat}

/-- The end of a body keeps the table matched. -/
theorem Matches.release {next : Agent ρ} (h : Matches agent)
    (hnext : agent.release index = some next) : Matches next := by
  unfold Agent.release at hnext
  split at hnext
  · rename_i body hbody
    split_ifs at hnext with hphase
    obtain rfl := some.inj hnext
    have hlive : body.phase.isUnfinished = true := by rw [hphase]; rfl
    have hothers : ∀ (place : Nat) (other : Body ρ), (agent.bodies.modify index fun body =>
        { body with phase := .done })[place]? = some other →
        other.phase.isUnfinished = true → place ≠ index ∧ agent.bodies[place]? = some other := by
      intro place other hother hotherLive
      rcases getElem?_modify_eq_some.1 hother with ⟨rfl, old, hold, rfl⟩ | hrest
      · simp [isUnfinished] at hotherLive
      · exact hrest
    refine ⟨fun id place hlookup => ?_, fun place other hother hotherLive hnot => ?_,
      fun i j a b hi hj ha hb heq => ?_⟩
    · have hne : id ≠ body.stream := by
        rintro rfl
        rw [lookup_erase] at hlookup
        cases hlookup
      rw [lookup_erase_ne hne] at hlookup
      obtain ⟨other, hother, hotherId, hrest⟩ := h.entry id place hlookup
      have hplace : place ≠ index := by
        rintro rfl
        rw [hbody] at hother
        exact hne (by rw [← hotherId, some.inj hother])
      exact ⟨other, getElem?_modify_eq_some.2 (.inr ⟨hplace, hother⟩), hotherId, hrest⟩
    · obtain ⟨hplace, hold⟩ := hothers place other hother hotherLive
      have hne : other.stream ≠ body.stream := fun heq =>
        hplace (h.distinct place index other body hold hbody hotherLive hlive heq)
      rw [lookup_erase_ne hne]
      exact h.registered place other hold hotherLive hnot
    · exact h.distinct i j a b (hothers i a hi ha).2 (hothers j b hj hb).2 ha hb heq
  · cases hnext

/-! ### Steps that leave every life as it is -/

/-- The agent after a step of one body that ends nothing and cancels nothing. -/
def Quiet (agent next : Agent ρ) : Prop :=
  ∃ (index : Nat) (f : Body ρ → Body ρ),
    next = { agent with bodies := agent.bodies.modify index f } ∧
      (∀ body, (f body).stream = body.stream) ∧
      (∀ body, (f body).cancelled = body.cancelled) ∧
      ∀ body, agent.bodies[index]? = some body →
        (f body).phase.isUnfinished = body.phase.isUnfinished ∧
          (f body).phase.isOpen = body.phase.isOpen

theorem length_filter_modify_eq (test : Body ρ → Bool) {f : Body ρ → Body ρ}
    (h : ∀ body, agent.bodies[index]? = some body → test (f body) = test body) :
    ((agent.bodies.modify index f).filter test).length = (agent.bodies.filter test).length := by
  cases hbody : agent.bodies[index]? with
  | none =>
    rw [getElem?_eq_none_iff] at hbody
    rw [modify_eq_self hbody]
  | some body =>
    have hlength := length_filter_modify test f hbody
    rw [h body hbody] at hlength
    omega

theorem Quiet.matches {next : Agent ρ} (h : Quiet agent next) (hmatches : Matches agent) :
    Matches next := by
  obtain ⟨index, f, rfl, hstream, hcancelled, hphase⟩ := h
  exact hmatches.modify index hstream hcancelled fun body hbody => (hphase body hbody).1

theorem Quiet.length_unfinished {next : Agent ρ} (h : Quiet agent next) :
    next.unfinished.length = agent.unfinished.length := by
  obtain ⟨index, f, rfl, -, -, hphase⟩ := h
  exact length_filter_modify_eq _ fun body hbody => (hphase body hbody).1

theorem Quiet.length_streaming {next : Agent ρ} (h : Quiet agent next) :
    next.streaming.length = agent.streaming.length := by
  obtain ⟨index, f, rfl, -, -, hphase⟩ := h
  exact length_filter_modify_eq _ fun body hbody => (hphase body hbody).2

theorem quiet_poll {next : Agent ρ} (h : agent.poll index = some next) : Quiet agent next := by
  unfold poll at h
  split at h
  · rename_i body hbody
    split_ifs at h with hphase
    refine ⟨index, _, (some.inj h).symm, fun _ => rfl, fun _ => rfl, fun other hother => ?_⟩
    rw [hbody] at hother
    obtain rfl := some.inj hother
    simp [hphase, isUnfinished, isOpen]
  · cases h

theorem quiet_spend {next : Agent ρ} (h : agent.spend index = some next) : Quiet agent next := by
  unfold spend at h
  split at h
  · split_ifs at h
    exact ⟨index, _, (some.inj h).symm, fun _ => rfl, fun _ => rfl, fun _ _ => ⟨rfl, rfl⟩⟩
  · cases h

theorem quiet_unhand {next : Agent ρ} (h : agent.unhand index = some (next, id)) :
    Quiet agent next := by
  unfold unhand at h
  split at h
  · split_ifs at h
    obtain ⟨hnext, -⟩ := Prod.mk.inj (some.inj h)
    exact ⟨index, _, hnext.symm, fun _ => rfl, fun _ => rfl, fun _ _ => ⟨rfl, rfl⟩⟩
  · cases h

theorem quiet_credit (limits : Limits) (agent : Agent ρ) (id : StreamId) (granted : Nat) :
    Quiet agent (agent.credit limits id granted) := by
  unfold credit
  split
  · exact ⟨_, _, rfl, fun _ => rfl, fun _ => rfl, fun _ _ => ⟨rfl, rfl⟩⟩
  · refine ⟨0, fun body => body, ?_, fun _ => rfl, fun _ => rfl, fun _ _ => ⟨rfl, rfl⟩⟩
    rw [show agent.bodies.modify 0 (fun body => body) = agent.bodies from modify_id 0 _]

/-! ### How many bodies there are -/

theorem length_unfinished_cancel (agent : Agent ρ) (id : StreamId) :
    (agent.cancel id).unfinished.length = agent.unfinished.length := by
  unfold cancel
  split
  · exact length_filter_modify_eq _ fun _ _ => rfl
  · rfl

theorem length_streaming_cancel (agent : Agent ρ) (id : StreamId) :
    (agent.cancel id).streaming.length = agent.streaming.length := by
  unfold cancel
  split
  · exact length_filter_modify_eq _ fun _ _ => rfl
  · rfl

theorem length_of_release {next : Agent ρ} (h : agent.release index = some next) :
    next.unfinished.length ≤ agent.unfinished.length ∧
      next.streaming.length = agent.streaming.length := by
  unfold release at h
  split at h
  · rename_i body hbody
    split_ifs at h with hphase
    obtain rfl := some.inj h
    have hunfinished := length_filter_modify (·.phase.isUnfinished)
      (fun body => { body with phase := .done }) hbody
    refine ⟨?_, length_filter_modify_eq _ fun other hother => ?_⟩
    · simp only [unfinished, isUnfinished, Bool.toNat_false] at hunfinished ⊢
      omega
    · rw [hbody] at hother
      obtain rfl := some.inj hother
      simp [hphase, isOpen]
  · cases h

/-- A body that ends leaves the streaming ones, stays in the table and puts its end on the
wire. -/
theorem agent_of_finish {μ : Type} {next : Agent ρ} {frames : List (Frame μ)}
    (h : agent.finish index = some (next, frames)) (hmatches : Matches agent) :
    Matches next ∧ next.unfinished.length = agent.unfinished.length ∧
      next.streaming.length + 1 = agent.streaming.length ∧
      (frames.filter (·.inbound.isFinish)).length = 1 := by
  unfold finish at h
  split at h
  · rename_i body hbody
    split_ifs at h with hphase
    obtain ⟨rfl, rfl⟩ := Prod.mk.inj (some.inj h)
    have hsame : ∀ other, agent.bodies[index]? = some other →
        ended.isUnfinished = other.phase.isUnfinished := by
      intro other hother
      rw [hbody] at hother
      obtain rfl := some.inj hother
      rw [hphase]
      rfl
    have hstreaming := length_filter_modify (·.phase.isOpen)
      (fun body => { body with phase := .ended }) hbody
    refine ⟨hmatches.modify index (fun _ => rfl) (fun _ => rfl) hsame,
      length_filter_modify_eq _ hsame, ?_, by simp [Inbound.isFinish]⟩
    simp only [hphase, isOpen, Bool.toNat_true, Bool.toNat_false] at hstreaming
    exact hstreaming
  · cases h

theorem start_of_admits (μ : Type) (window : Nat) (job : ρ) (h : agent.admits limits id = true) :
    ∃ body : Body ρ, body.stream = id ∧ body.phase = .spawned ∧ body.cancelled = false ∧
      (agent.start limits window id job : Agent ρ × List (Frame μ)) =
        ({ table := agent.table.insert body.stream agent.bodies.length,
           bodies := agent.bodies ++ [body] }, []) := by
  refine ⟨⟨id, job, false, window, false, 0, .spawned⟩, rfl, rfl, rfl, ?_⟩
  rw [start, if_pos h]

theorem length_filter_concat {α : Type} {test : α → Bool} {items : List α} {item : α}
    (h : test item = true) : ((items ++ [item]).filter test).length =
      (items.filter test).length + 1 := by
  rw [filter_append, length_append]
  simp [h]

end Matches

/-! ### Every orderly session -/

section Invariant

open Indexed

variable {ρ μ : Type} {limits : Limits} {window : Nat}

/-- What every orderly step keeps: the table matches the bodies, and the peer counts at least the
starts under way, the streaming bodies and the ends under way. A start under way was counted with
the starts before it and every streaming body. -/
structure SessionInvariant (limits : Limits) (session : Session ρ μ) : Prop where
  table : Matches session.agent
  bounded : session.agent.unfinished.length ≤ limits.maxStreams
  refusals : ∀ counted ∈ session.refused, limits.maxStreams < counted
  counted : ∀ before id job counted after,
    session.toAgent = before ++ .start id job counted :: after →
      (before.filter (·.isStart)).length + 1 + session.agent.streaming.length ≤ counted
  opened : (session.toAgent.filter (·.isStart)).length + session.agent.streaming.length +
    (session.toPeer.filter (·.inbound.isFinish)).length ≤ session.opened.length

variable {agent : Agent ρ}

/-- A step of the agent's own that adds no streaming body keeps the invariant, when every body
that stops streaming puts its end on the wire. -/
theorem SessionInvariant.agent_step {session : Session ρ μ} {frames : List (Frame μ)}
    (h : SessionInvariant limits session) (htable : Matches agent)
    (hbounded : agent.unfinished.length ≤ session.agent.unfinished.length)
    (hstreaming : agent.streaming.length + (frames.filter (·.inbound.isFinish)).length ≤
      session.agent.streaming.length) :
    SessionInvariant limits { session with agent, toPeer := session.toPeer ++ frames } where
  table := htable
  bounded := Nat.le_trans hbounded h.bounded
  refusals := h.refusals
  counted before id job counted after heq := by
    have hcounted := h.counted before id job counted after heq
    change _ + 1 + agent.streaming.length ≤ counted
    omega
  opened := by
    have hopened := h.opened
    change (session.toAgent.filter (·.isStart)).length + agent.streaming.length +
      ((session.toPeer ++ frames).filter (·.inbound.isFinish)).length ≤ session.opened.length
    rw [filter_append, length_append]
    omega

theorem SessionInvariant.silent {session : Session ρ μ} (h : SessionInvariant limits session)
    (htable : Matches agent) (hbounded : agent.unfinished.length ≤ session.agent.unfinished.length)
    (hstreaming : agent.streaming.length ≤ session.agent.streaming.length) :
    SessionInvariant limits { session with agent } := by
  have hstep : SessionInvariant limits { session with agent, toPeer := session.toPeer ++ [] } :=
    h.agent_step htable hbounded hstreaming
  rwa [append_nil] at hstep

theorem SessionInvariant.quiet {session : Session ρ μ} {frames : List (Frame μ)}
    (h : SessionInvariant limits session) (hquiet : Quiet session.agent agent)
    (hframes : frames.filter (·.inbound.isFinish) = []) :
    SessionInvariant limits { session with agent, toPeer := session.toPeer ++ frames } :=
  h.agent_step (hquiet.matches h.table) (Nat.le_of_eq hquiet.length_unfinished)
    (by rw [hframes, hquiet.length_streaming]; exact Nat.le_refl _)

variable {rest : List (PeerFrame ρ)}

theorem SessionInvariant.drop_frame {session : Session ρ μ} {frame : PeerFrame ρ}
    (h : SessionInvariant limits session) (hqueue : session.toAgent = frame :: rest)
    (hframe : frame.isStart = false) :
    SessionInvariant limits { session with toAgent := rest } where
  table := h.table
  bounded := h.bounded
  refusals := h.refusals
  counted before id job counted after heq := by
    have hrest : rest = before ++ .start id job counted :: after := heq
    have hcounted := h.counted (frame :: before) id job counted after (by rw [hqueue, hrest]; rfl)
    rwa [filter_cons_of_neg (by simp [hframe])] at hcounted
  opened := by
    have hopened := h.opened
    rwa [hqueue, filter_cons_of_neg (by simp [hframe])] at hopened

theorem SessionInvariant.add_frame {session : Session ρ μ} {frame : PeerFrame ρ}
    (h : SessionInvariant limits session) (hframe : frame.isStart = false) :
    SessionInvariant limits { session with toAgent := session.toAgent ++ [frame] } where
  table := h.table
  bounded := h.bounded
  refusals := h.refusals
  counted before id job counted after heq := by
    rcases concat_eq_append_cons heq with ⟨-, -, rfl⟩ | ⟨tail, -, hqueue⟩
    · cases hframe
    · exact h.counted before id job counted tail hqueue
  opened := by
    have hopened := h.opened
    simpa [hframe] using hopened

/-- A start is counted with everything that is already under way. -/
theorem SessionInvariant.add_start {session : Session ρ μ} (h : SessionInvariant limits session)
    (id : StreamId) (job : ρ) :
    SessionInvariant limits { session with
      toAgent := session.toAgent ++ [.start id job (session.opened.length + 1)]
      opened := id :: session.opened } where
  table := h.table
  bounded := h.bounded
  refusals := h.refusals
  counted before id' job' counted after heq := by
    have hopened := h.opened
    rcases concat_eq_append_cons heq with ⟨-, hbefore, hstart⟩ | ⟨tail, -, hqueue⟩
    · obtain ⟨-, -, rfl⟩ := PeerFrame.start.inj hstart
      rw [hbefore] at hopened
      change _ + 1 + session.agent.streaming.length ≤ _
      omega
    · exact h.counted before id' job' counted tail hqueue
  opened := by
    have hopened := h.opened
    change ((session.toAgent ++ [_]).filter _).length + session.agent.streaming.length +
      (session.toPeer.filter _).length ≤ (id :: session.opened).length
    rw [length_filter_concat rfl, length_cons]
    omega

/-- Reading a frame takes at most its own end off the count. -/
theorem SessionInvariant.read {session : Session ρ μ} {frame : Frame μ} {rest : List (Frame μ)}
    (h : SessionInvariant limits session) (hqueue : session.toPeer = frame :: rest) :
    SessionInvariant limits (session.readFrame rest frame) where
  table := h.table
  bounded := h.bounded
  refusals := h.refusals
  counted := h.counted
  opened := by
    have hopened := h.opened
    rw [hqueue, filter_cons] at hopened
    simp only [Session.readFrame]
    split_ifs at hopened ⊢ with hfinish
    · have herase := le_length_erase (l := session.opened) (a := frame.stream)
      rw [length_cons] at hopened
      omega
    · exact hopened

/-- Handling an orderly start keeps the invariant. -/
theorem SessionInvariant.start {session : Session ρ μ} {job : ρ} {counted : Nat}
    (h : SessionInvariant limits session) (hqueue : session.toAgent = .start id job counted :: rest)
    (horderly : OrderlyStart limits session.agent id) :
    SessionInvariant limits (session.handleFrame limits window rest (.start id job counted)) := by
  have hopened := h.opened
  rw [hqueue, filter_cons_of_pos rfl, length_cons] at hopened
  have hlater : ∀ before id' job' counted' after, rest = before ++ .start id' job' counted' :: after →
      (before.filter (·.isStart)).length + 1 + (session.agent.streaming.length + 1) ≤
        counted' := by
    intro before id' job' counted' after heq
    have hcounted := h.counted (.start id job counted :: before) id' job' counted' after
      (by rw [hqueue, heq]; rfl)
    rw [filter_cons_of_pos rfl, length_cons] at hcounted
    omega
  by_cases hadmits : session.agent.admits limits id = true
  · obtain ⟨body, hid, hphase, hnot, hstart⟩ := start_of_admits μ window job hadmits
    have hopen : body.phase.isOpen = true := by rw [hphase]; rfl
    have hroom : session.agent.size < limits.maxStreams := by
      simp only [admits, Bool.not_eq_true', Bool.or_eq_false_iff, decide_eq_false_iff_not]
        at hadmits
      omega
    have hunfinished := h.table.length_unfinished_le
    have hlimit := horderly.room hroom
    have hmore : ∀ test : Body ρ → Bool, test body = true →
        ((session.agent.bodies ++ [body]).filter test).length =
          (session.agent.bodies.filter test).length + 1 := fun test => length_filter_concat
    refine ⟨?_, ?_, ?_, ?_, ?_⟩ <;>
      simp only [Session.handleFrame, hstart, if_pos hadmits, append_nil]
    · exact h.table.register (hid ▸ horderly.fresh) (isUnfinished_of_isOpen hopen) hnot
    · rw [unfinished, hmore _ (isUnfinished_of_isOpen hopen)]
      change session.agent.unfinished.length + 1 ≤ _
      omega
    · exact h.refusals
    · intro before id' job' counted' after heq
      rw [streaming, hmore _ hopen]
      exact hlater before id' job' counted' after heq
    · rw [streaming, hmore _ hopen]
      change _ + (session.agent.streaming.length + 1) + _ ≤ _
      omega
  · have hstart : (session.agent.start limits window id job : Agent ρ × List (Frame μ)) =
        (session.agent, Agent.refusal limits id) := by
      rw [Agent.start, if_neg hadmits]
    have hfinish : ((Agent.refusal limits id : List (Frame μ)).filter
        (·.inbound.isFinish)).length = 1 := by
      simp [refusal, Inbound.isFinish]
    have hfull : limits.maxStreams ≤ session.agent.size := by
      by_contra hroom
      have hmem : id ∈ session.agent.table := by
        simpa [admits, hroom] using hadmits
      rw [← lookup_isSome, isSome_iff_exists] at hmem
      obtain ⟨index, hlookup⟩ := hmem
      obtain ⟨body, hbody, hid, hlive, -⟩ := h.table.entry id index hlookup
      exact horderly.fresh body (mem_filter.2 ⟨mem_of_getElem? hbody, hlive⟩) hid
    have hstreaming := h.table.size_le_streaming (horderly.full hfull)
    have hcounted := h.counted [] id job counted rest hqueue
    refine ⟨?_, ?_, ?_, ?_, ?_⟩ <;> simp only [Session.handleFrame, hstart, if_neg hadmits]
    · exact h.table
    · exact h.bounded
    · intro other hother
      rcases mem_cons.1 hother with rfl | hother
      · simp only [filter_nil, length_nil] at hcounted
        omega
      · exact h.refusals other hother
    · intro before id' job' counted' after heq
      have hle := hlater before id' job' counted' after heq
      omega
    · rw [filter_append, length_append, hfinish]
      omega

/-- **One orderly step** keeps the invariant. -/
theorem SessionInvariant.step {state next : Session ρ μ} {label : SessionStep ρ μ}
    (h : SessionInvariant limits state) (horderly : Orderly limits state label)
    (hnext : (session limits window).next state label = some next) :
    SessionInvariant limits next := by
  -- a step of the agent that puts nothing on the wire
  have hnothing : ∀ {agent : Agent ρ}, Quiet state.agent agent →
      SessionInvariant limits { state with agent } := by
    intro agent hquiet
    exact h.silent (hquiet.matches h.table) (Nat.le_of_eq hquiet.length_unfinished)
      (Nat.le_of_eq hquiet.length_streaming)
  cases label with
  | sendStart id job =>
    obtain rfl := some.inj hnext
    exact h.add_start id job
  | sendCancel id =>
    obtain rfl := some.inj hnext
    exact h.add_frame rfl
  | sendCredit id granted =>
    obtain rfl := some.inj hnext
    exact h.add_frame rfl
  | receive =>
    simp only [session, Session.next] at hnext
    split at hnext
    · rename_i frame rest hqueue
      obtain rfl := some.inj hnext
      exact h.read hqueue
    · cases hnext
  | handle =>
    simp only [session, Session.next] at hnext
    split at hnext
    · rename_i frame rest hqueue
      obtain rfl := some.inj hnext
      cases frame with
      | start id job counted => exact h.start hqueue (horderly id job counted rest hqueue)
      | cancel id =>
        have hstep := h.silent (h.table.cancel id)
          (Nat.le_of_eq (length_unfinished_cancel _ id))
          (Nat.le_of_eq (length_streaming_cancel _ id))
        exact hstep.drop_frame hqueue rfl
      | credit id granted =>
        exact (hnothing (quiet_credit limits state.agent id granted)).drop_frame hqueue rfl
    · cases hnext
  | poll index =>
    obtain ⟨agent, hagent, rfl⟩ := map_eq_some_iff.1 hnext
    exact hnothing (quiet_poll hagent)
  | spend index =>
    obtain ⟨agent, hagent, rfl⟩ := map_eq_some_iff.1 hnext
    exact hnothing (quiet_spend hagent)
  | send index inbound =>
    obtain ⟨⟨agent, frames⟩, hagent, rfl⟩ := map_eq_some_iff.1 hnext
    unfold send at hagent
    split_ifs at hagent with hfinish
    obtain ⟨⟨agent', id⟩, hunhand, heq⟩ := map_eq_some_iff.1 hagent
    obtain ⟨rfl, rfl⟩ := Prod.mk.inj heq
    exact h.quiet (quiet_unhand hunhand) (by simp [hfinish])
  | lose index =>
    obtain ⟨agent, hagent, rfl⟩ := map_eq_some_iff.1 hnext
    obtain ⟨⟨agent', id⟩, hunhand, rfl⟩ := map_eq_some_iff.1 hagent
    exact hnothing (quiet_unhand hunhand)
  | finish index =>
    obtain ⟨⟨agent, frames⟩, hagent, rfl⟩ := map_eq_some_iff.1 hnext
    obtain ⟨htable, hunfinished, hstreaming, hframes⟩ := agent_of_finish hagent h.table
    exact h.agent_step htable (Nat.le_of_eq hunfinished) (by omega)
  | release index =>
    obtain ⟨agent, hagent, rfl⟩ := map_eq_some_iff.1 hnext
    obtain ⟨hunfinished, hstreaming⟩ := length_of_release hagent
    exact h.silent (h.table.release hagent) hunfinished (Nat.le_of_eq hstreaming)

theorem sessionInvariant_initial : SessionInvariant limits (Session.initial : Session ρ μ) where
  table := matches_empty
  bounded := by simp [Session.initial, empty, unfinished]
  refusals := by simp [Session.initial]
  counted := by simp [Session.initial]
  opened := by simp [Session.initial, empty, streaming]

end Invariant

/-- **The table stays in step with what is running** in every session whose starts are orderly:
every body that runs and was not cancelled has its own entry, there are never more bodies than
streams allowed, and only a start with which the peer counts more than that is refused. -/
theorem inStep_of_reached {ρ μ : Type} (limits : Limits) (window : Nat) (state : Session ρ μ)
    (h : (session limits window).Reached (· = Session.initial) (Orderly limits) state) :
    InStep limits state := by
  have hinv : SessionInvariant limits state :=
    h.invariant (fun _ hstart => hstart ▸ sessionInvariant_initial)
      fun _ _ _ hinv horderly hnext => hinv.step horderly hnext
  exact ⟨fun index body hbody hopen hnot =>
      hinv.table.registered index body hbody (isUnfinished_of_isOpen hopen) hnot,
    hinv.bounded, hinv.refusals⟩

/-! ### Sessions that are not orderly -/

/-- An agent that allows one stream. -/
def oneStream : Limits :=
  Limits.default.withMaxStreams 1

/-- The identifier of a stream is used again after its cancellation, and the first body then ends. -/
def reuseAfterCancel : List (SessionStep Unit Unit) :=
  [.sendStart 1 (), .handle, .poll 0, .sendCancel 1, .handle, .sendStart 1 (), .handle, .finish 0,
    .release 0]

/-- A second stream is started while the first, which was cancelled, still runs. -/
def startAfterCancel : List (SessionStep Unit Unit) :=
  [.sendStart 1 (), .handle, .sendCancel 1, .handle, .sendStart 2 (), .handle]

/-- A second stream is started when the end of the first has been read, and before its entry is
out of the table. -/
def startAfterEnd : List (SessionStep Unit Unit) :=
  [.sendStart 1 (), .handle, .poll 0, .finish 0, .receive, .sendStart 2 (), .handle]

/-- One stream is started, and ends. -/
def startAndEnd : List (SessionStep Unit Unit) :=
  [.sendStart 1 (), .handle, .poll 0, .finish 0, .release 0, .receive]

theorem inStep_startAndEnd :
    ∃ state : Session Unit Unit,
      (session oneStream 1).run Session.initial startAndEnd = some state ∧
        InStep oneStream state := by
  have hstart : OrderlyStart oneStream (empty : Agent Unit) 1 :=
    ⟨by simp [empty, unfinished], fun _ => by decide, fun hfull => by
      exact absurd hfull (by decide)⟩
  refine ⟨_, rfl, inStep_of_reached oneStream 1 _ ?_⟩
  refine .step .receive (.step (.release 0) (.step (.finish 0) (.step (.poll 0) (.step .handle
    (.step (.sendStart 1 ()) (.start rfl) trivial rfl) ?_ rfl) trivial rfl) trivial rfl)
    trivial rfl) trivial rfl
  intro id job counted rest hqueue
  obtain ⟨rfl, -, -⟩ := PeerFrame.start.inj (cons.inj hqueue).1
  exact hstart

/-- **The table and the bodies get out of step.** A body that runs has lost its entry, two bodies
run where one stream is allowed, and a peer is refused a stream that is the only one it counts. -/
theorem not_inStep_of_reached :
    (∃ state : Session Unit Unit,
      (session oneStream 1).Reached (· = Session.initial) (fun _ _ => True) state ∧
        ∃ body : Body Unit, state.agent.bodies[1]? = some body ∧ body.phase.isOpen = true ∧
          body.cancelled = false ∧ state.agent.table.lookup body.stream = none) ∧
    (∃ state : Session Unit Unit,
      (session oneStream 1).Reached (· = Session.initial) (fun _ _ => True) state ∧
        oneStream.maxStreams < state.agent.unfinished.length) ∧
    ∃ state : Session Unit Unit,
      (session oneStream 1).Reached (· = Session.initial) (fun _ _ => True) state ∧
        ∃ counted ∈ state.refused, counted ≤ oneStream.maxStreams := by
  refine ⟨⟨_, .of_run reuseAfterCancel (.start rfl) (fun _ _ _ => trivial) rfl, _, rfl, rfl, rfl,
    rfl⟩, ⟨_, .of_run startAfterCancel (.start rfl) (fun _ _ _ => trivial) rfl,
    by decide⟩, _, .of_run startAfterEnd (.start rfl) (fun _ _ _ => trivial) rfl, 1, ?_⟩
  exact ⟨mem_cons_self, by decide⟩

end OnoSendai.Link
