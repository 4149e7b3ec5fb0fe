import OnoSendai.Lib.Indexed
import OnoSendai.Lib.Transition
import OnoSendai.Link.Agent
import OnoSendai.Link.Authorization

/-!
# Serving a link

The agent reads an opening, decides what the peer may do, answers the handshake, and then starts a
body for every request. Each body carries the verdict on its request with it, and calls the
service only when there is none against it. Bodies run as tasks of their own, so their steps
interleave with the frames of the peer, and go on after the loop has returned.
-/

namespace OnoSendai.Link

open Interaction Indexed Option List PeerAuthorization Agent

/-! ### Requests -/

/-- The identity of an object: its schema and the values of its identity fields. -/
structure ObjectId where
  schema : SchemaId
  values : List Value

/-- What narrows a query. -/
inductive Selector
  | field (name : String) (value : Value)
  | contains (name text : String)
  | identity (object : ObjectId)

/-- The interval a historical request is asked over. -/
structure TimeWindow where
  start : Option Int
  stop : Option Int

/-- A request for the objects of a target, or for their changes. -/
structure RemoteQuery where
  target : String
  verb : String
  selectors : List Selector
  options : List (String × Value)
  limit : Option Nat
  window : Option TimeWindow

/-- A request to change an object. -/
structure ActRequest where
  target : String
  operation : String
  object : ObjectId
  arguments : List (String × Value)
  dryRun : Bool
  source : Option String
  attemptedFrom : Option Int

/-- A request to run a program and adapt what it prints. -/
structure AdaptRequest where
  argv : List String
  demand : String
  explainOnly : Bool

/-- What one end of a link can say to the other. -/
inductive Message (μ : Type)
  | hello (hello : Hello)
  | accept (accept : Accept)
  | reject (reject : Reject)
  | startQuery (query : RemoteQuery)
  | startSubscribe (query : RemoteQuery)
  | startAdapt (request : AdaptRequest)
  | act (request : ActRequest)
  | cancel
  | credit (granted : UInt32)
  | value (item : μ)
  | event (item : μ)
  | failure (error : ErrorValue)
  | outcome (item : μ)
  | finish

/-- The kind of the frame a message travels in. -/
def Message.kind {μ : Type} : Message μ → String
  | hello _ => "hello"
  | accept _ => "accept"
  | reject _ => "reject"
  | startQuery _ => "start-query"
  | startSubscribe _ => "start-subscribe"
  | startAdapt _ => "start-adapt"
  | act _ => "act"
  | cancel => "cancel"
  | credit _ => "credit"
  | value _ => "value"
  | event _ => "event"
  | failure _ => "failure"
  | outcome _ => "outcome"
  | finish => "end"

/-- What the reader hands over: the transport failed, the peer closed the link, or a frame with
what decoding it came to. -/
inductive Reading (μ : Type)
  | broken (error : ErrorValue)
  | closed
  | frame (stream : StreamId) (message : Except ProtocolError (Message μ))

/-! ### Calls of the service -/

/-- A call of the service. -/
inductive Call
  | query (peer : PeerAuthorization) (query : RemoteQuery)
  | subscribe (peer : PeerAuthorization) (query : RemoteQuery)
  | adapt (peer : PeerAuthorization) (request : AdaptRequest)
  | act (peer : PeerAuthorization) (request : ActRequest)

/-- What a body runs: the verdict against its request, if there is one, and the call. -/
structure Job where
  refusal : Option ErrorValue
  call : Call

/-- The error of a check that failed. -/
def refusalOf (check : Except ErrorValue Unit) : Option ErrorValue :=
  match check with
  | .ok _ => none
  | .error refusal => some refusal

/-- The body of a query. -/
def queryJob (peer : PeerAuthorization) (query : RemoteQuery) : Job where
  refusal := refusalOf (peer.requireObserve ("get " ++ query.target))
  call := .query peer query

/-- The body of a subscription. -/
def subscribeJob (peer : PeerAuthorization) (query : RemoteQuery) : Job where
  refusal := refusalOf (peer.requireObserve ("watch " ++ query.target))
  call := .subscribe peer query

/-- The body of an adaptation. No capability names it, so a policy never grants it. -/
def adaptJob (peer : PeerAuthorization) (request : AdaptRequest) : Job where
  refusal :=
    match peer with
    | .carriedByTransport => none
    | .policy _ => refusalOf (peer.requireAction none ("adapt " ++ " ".intercalate request.argv))
  call := .adapt peer request

/-- The body of an action. The capability it needs comes from the agent's own contracts. -/
def actJob (config : ServerConfig) (peer : PeerAuthorization) (request : ActRequest) : Job where
  refusal :=
    match peer with
    | .carriedByTransport => none
    | .policy _ => refusalOf (peer.requireAction
        (config.actionCapability request.target request.operation)
        (request.operation ++ " " ++ request.target))
  call := .act peer request

/-! ### A connection -/

/-- What the agent hands to its writer. -/
inductive Sent (μ : Type)
  | accept (accept : Accept)
  | reject (reject : Reject)
  | stream (frame : Frame μ)

/-- Where the loop stands: before the opening, serving a peer with a window, or returned. -/
inductive Stage
  | opening
  | serving (peer : PeerAuthorization) (window : Nat)
  | returned (result : Except ErrorValue Unit)

/-- A connection: where the loop stands, the opening once it is read, the streams, the calls of the
service so far, and the frames handed to the writer so far. -/
structure Serving (μ : Type) where
  stage : Stage
  hello : Option Hello
  agent : Agent Job
  calls : List Call
  sent : List (Sent μ)

/-- What the agent's surroundings decide: the hash of a key, what the build says about itself, how
many bytes an answer of the handshake takes, and how the patience with an opening is spelled. -/
structure Surroundings where
  hash : KeyHash
  build : Build
  answerSize : Accept ⊕ Reject → Nat
  patience : String

/-- The steps of a connection: the opening does not come in time, the reader hands something over,
or a body takes a step. `writer` says whether the writer still takes frames. -/
inductive ServeStep (μ : Type)
  | timeout
  | read (reading : Reading μ) (writer : Bool)
  | poll (index : Nat)
  | spend (index : Nat)
  | send (index : Nat) (inbound : Inbound μ)
  | lose (index : Nat)
  | finish (index : Nat)
  | release (index : Nat)

namespace Serving

variable {μ : Type}

/-- A connection whose opening is still to come. -/
def initial : Serving μ where
  stage := .opening
  hello := none
  agent := .empty
  calls := []
  sent := []

/-- The loop returns. -/
def leave (state : Serving μ) (result : Except ErrorValue Unit) : Serving μ :=
  { state with stage := .returned result }

variable (surroundings : Surroundings) (config : ServerConfig) (peerKey : Option HostKey)

/-- Why an answer of the handshake does not fit into a frame, if it does not. -/
def oversized (answer : Accept ⊕ Reject) : Option ErrorValue :=
  if config.limits.maxFramePayload < surroundings.answerSize answer then
    some (ProtocolError.frameTooLarge (surroundings.answerSize answer)
      config.limits.maxFramePayload).toErrorValue
  else
    none

/-- Refuses the connection. -/
def refuseWith (state : Serving μ) (reject : Reject) : Serving μ :=
  match oversized surroundings config (.inr reject) with
  | some error => state.leave (.error error)
  | none => { state with sent := state.sent ++ [Sent.reject reject] }.leave (.ok ())

/-- The reject a refusal is sent as. -/
def rejectOf (refusal : ErrorValue) : Reject where
  code := refusal.code.name
  message := refusal.message

/-- Answers the opening of a peer. -/
def answer (state : Serving μ) (hello : Hello) (writer : Bool) : Serving μ :=
  match resolve surroundings.hash config.authorization peerKey with
  | .error refusal => state.refuseWith surroundings config (rejectOf refusal)
  | .ok peer =>
    match negotiate surroundings.build hello (config.offerFor peer) with
    | .error reject => state.refuseWith surroundings config reject
    | .ok accept =>
      match oversized surroundings config (.inl accept) with
      | some error => state.leave (.error error)
      | none =>
        if writer then
          { state with
            stage := .serving peer accept.creditWindow
            sent := state.sent ++ [.accept accept] }
        else
          state.leave (.error (unreachable "the link closed before the handshake was answered"))

/-- Reads the opening. -/
def openWith (state : Serving μ) (reading : Reading μ) (writer : Bool) : Serving μ :=
  match reading with
  | .broken error => state.leave (.error error)
  | .closed => state.leave (.error (unreachable "the caller closed the link before saying hello"))
  | .frame _ (.error error) => state.leave (.error error.toErrorValue)
  | .frame _ (.ok (.hello hello)) =>
    { state with hello := some hello }.answer surroundings config peerKey hello writer
  | .frame _ (.ok message) =>
    state.leave (.error
      (ProtocolError.malformedPayload message.kind "a link opens with a hello").toErrorValue)

/-- Starts a body, or answers that it is one too many. -/
def startJob (state : Serving μ) (window : Nat) (stream : StreamId) (job : Job) : Serving μ :=
  let answer := state.agent.start config.limits window stream job
  { state with agent := answer.1, sent := state.sent ++ answer.2.map .stream }

/-- Handles a message of a peer that is served. -/
def dispatch (state : Serving μ) (peer : PeerAuthorization) (window : Nat) (stream : StreamId) :
    Message μ → Serving μ
  | .startQuery query => state.startJob config window stream (queryJob peer query)
  | .startSubscribe query => state.startJob config window stream (subscribeJob peer query)
  | .startAdapt request => state.startJob config window stream (adaptJob peer request)
  | .act request => state.startJob config window stream (actJob config peer request)
  | .cancel => { state with agent := state.agent.cancel stream }
  | .credit granted =>
    { state with agent := state.agent.credit config.limits stream granted.toNat }
  | message => state.leave (.error
      (ProtocolError.malformedPayload message.kind
        "an agent is asked, it is not told").toErrorValue)

/-- Handles what the reader hands over while a peer is served. -/
def continueWith (state : Serving μ) (peer : PeerAuthorization) (window : Nat) :
    Reading μ → Serving μ
  | .broken error => state.leave (.error error)
  | .closed => state.leave (.ok ())
  | .frame _ (.error error) => state.leave (.error error.toErrorValue)
  | .frame stream (.ok message) => state.dispatch config peer window stream message

/-- Whether a body may put something on its stream: one with a verdict against it only says so. -/
def maySend (state : Serving μ) (index : Nat) (inbound : Inbound μ) : Bool :=
  match (state.agent.bodies[index]?).bind (·.job.refusal) with
  | none => true
  | some _ =>
    match inbound with
    | .failure _ => true
    | _ => false

/-- The call a body makes when it is polled for the first time. -/
def callOf (state : Serving μ) (index : Nat) : List Call :=
  match state.agent.bodies[index]? with
  | some body =>
    match body.job.refusal with
    | some _ => []
    | none => [body.job.call]
  | none => []

/-- What a step does. -/
def next (state : Serving μ) : ServeStep μ → Option (Serving μ)
  | .timeout =>
    match state.stage with
    | .opening => some (state.leave (.error
        { code := .other "remote.handshake_timeout"
          message := "the caller did not say hello within " ++ surroundings.patience ++
            " seconds" }))
    | _ => none
  | .read reading writer =>
    match state.stage with
    | .opening => some (state.openWith surroundings config peerKey reading writer)
    | .serving peer window => some (state.continueWith config peer window reading)
    | .returned _ => none
  | .poll index => (state.agent.poll index).map fun agent =>
      { state with agent, calls := state.calls ++ state.callOf index }
  | .spend index => (state.agent.spend index).map fun agent => { state with agent }
  | .send index inbound =>
    if state.maySend index inbound then
      (state.agent.send index inbound).map fun (agent, frames) =>
        { state with agent, sent := state.sent ++ frames.map .stream }
    else
      none
  | .lose index => (state.agent.lose index).map fun agent => { state with agent }
  | .finish index => (state.agent.finish index).map fun (agent, frames) =>
      { state with agent, sent := state.sent ++ frames.map .stream }
  | .release index => (state.agent.release index).map fun agent => { state with agent }

end Serving

/-- A connection as a transition system. -/
def serve (μ : Type) (surroundings : Surroundings) (config : ServerConfig)
    (peerKey : Option HostKey) : Transition (Serving μ) (ServeStep μ) where
  next state step := state.next surroundings config peerKey step

/-! ### The jobs of the bodies -/

variable {index : Nat}

namespace Agent

variable {ρ μ : Type} {agent next : Agent ρ}

/-- What the bodies of an agent run, in the order they were started. -/
def jobs (agent : Agent ρ) : List ρ :=
  agent.bodies.map (·.job)

@[simp]
theorem jobs_cancel (agent : Agent ρ) (id : StreamId) : (agent.cancel id).jobs = agent.jobs := by
  unfold cancel
  split
  · exact map_modify_of_eq fun _ => rfl
  · rfl

@[simp]
theorem jobs_credit (limits : Limits) (agent : Agent ρ) (id : StreamId) (granted : Nat) :
    (agent.credit limits id granted).jobs = agent.jobs := by
  unfold credit
  split
  · exact map_modify_of_eq fun _ => rfl
  · rfl

theorem jobs_start (limits : Limits) (window : Nat) (agent : Agent ρ) (id : StreamId) (job : ρ) :
    (agent.start (μ := μ) limits window id job).1.jobs = agent.jobs ∨
      (agent.start (μ := μ) limits window id job).1.jobs = agent.jobs ++ [job] := by
  unfold start
  split_ifs
  · exact .inr (by simp [jobs])
  · exact .inl rfl

theorem jobs_poll (h : agent.poll index = some next) : next.jobs = agent.jobs := by
  unfold poll at h
  split at h
  · split_ifs at h
    obtain rfl := some.inj h
    exact map_modify_of_eq fun _ => rfl
  · exact absurd h (by simp)

theorem jobs_spend (h : agent.spend index = some next) : next.jobs = agent.jobs := by
  unfold spend at h
  split at h
  · split_ifs at h
    obtain rfl := some.inj h
    exact map_modify_of_eq fun _ => rfl
  · exact absurd h (by simp)

theorem jobs_unhand {stream : StreamId} (h : agent.unhand index = some (next, stream)) :
    next.jobs = agent.jobs ∧ agent.jobs ≠ [] := by
  unfold unhand at h
  split at h
  next body hbody =>
    split_ifs at h
    obtain ⟨rfl, -⟩ := Prod.mk.inj (some.inj h)
    refine ⟨map_modify_of_eq fun _ => rfl, fun hnil => ?_⟩
    rw [map_eq_nil_iff.1 hnil] at hbody
    exact absurd hbody (by simp)
  · exact absurd h (by simp)

theorem jobs_send {inbound : Inbound μ} {frames : List (Frame μ)}
    (h : agent.send index inbound = some (next, frames)) :
    next.jobs = agent.jobs ∧ agent.jobs ≠ [] := by
  unfold send at h
  split_ifs at h
  obtain ⟨⟨after, stream⟩, hunhand, hnext⟩ := map_eq_some_iff.1 h
  obtain ⟨rfl, -⟩ := Prod.mk.inj hnext
  exact jobs_unhand hunhand

theorem jobs_lose (h : agent.lose index = some next) : next.jobs = agent.jobs := by
  obtain ⟨⟨after, stream⟩, hunhand, rfl⟩ := map_eq_some_iff.1 h
  exact (jobs_unhand hunhand).1

theorem jobs_finish {frames : List (Frame μ)} (h : agent.finish index = some (next, frames)) :
    next.jobs = agent.jobs ∧ agent.jobs ≠ [] := by
  unfold finish at h
  split at h
  next body hbody =>
    split_ifs at h
    obtain ⟨rfl, -⟩ := Prod.mk.inj (some.inj h)
    refine ⟨map_modify_of_eq fun _ => rfl, fun hnil => ?_⟩
    rw [map_eq_nil_iff.1 hnil] at hbody
    exact absurd hbody (by simp)
  · exact absurd h (by simp)

theorem jobs_release (h : agent.release index = some next) : next.jobs = agent.jobs := by
  unfold release at h
  split at h
  · split_ifs at h
    obtain rfl := some.inj h
    exact map_modify_of_eq fun _ => rfl
  · exact absurd h (by simp)

end Agent

/-! ### What authorization promises -/

/-- Whether an entry of the store allows a call. The capability of an action is the one the agent's
own contracts name; no entry allows an adaptation. -/
def AuthorizedClient.Allows (config : ServerConfig) (entry : AuthorizedClient) : Call → Prop
  | .query _ _ | .subscribe _ _ => entry.observe = true
  | .adapt _ _ => False
  | .act _ request => ∃ grant ∈ entry.actions,
      config.actionCapability request.target request.operation = some grant.id

section Jobs

variable {config : ServerConfig} {entry : AuthorizedClient}

theorem eq_ok_of_refusalOf_eq_none {check : Except ErrorValue Unit} (h : refusalOf check = none) :
    check = .ok () := by
  cases check with
  | ok => rfl
  | error => exact absurd h (by simp [refusalOf])

theorem allows_queryJob {query : RemoteQuery}
    (h : (queryJob (.policy (.of entry)) query).refusal = none) :
    entry.Allows config (queryJob (.policy (.of entry)) query).call :=
  (requireObserve_eq_ok_iff _ _).1 (eq_ok_of_refusalOf_eq_none h)

theorem allows_subscribeJob {query : RemoteQuery}
    (h : (subscribeJob (.policy (.of entry)) query).refusal = none) :
    entry.Allows config (subscribeJob (.policy (.of entry)) query).call :=
  (requireObserve_eq_ok_iff _ _).1 (eq_ok_of_refusalOf_eq_none h)

theorem allows_adaptJob {request : AdaptRequest}
    (h : (adaptJob (.policy (.of entry)) request).refusal = none) :
    entry.Allows config (adaptJob (.policy (.of entry)) request).call := by
  simp only [adaptJob] at h
  have hcheck := eq_ok_of_refusalOf_eq_none h
  obtain ⟨id, hid, -⟩ := (requireAction_eq_ok_iff _ _ _).1 hcheck
  exact absurd hid (by simp)

theorem allows_actJob {request : ActRequest}
    (h : (actJob config (.policy (.of entry)) request).refusal = none) :
    entry.Allows config (actJob config (.policy (.of entry)) request).call := by
  simp only [actJob] at h
  have hcheck := eq_ok_of_refusalOf_eq_none h
  obtain ⟨id, hid, hallows⟩ := (requireAction_eq_ok_iff _ _ _).1 hcheck
  obtain ⟨grant, hgrant, heq⟩ := any_eq_true.1 hallows
  exact ⟨grant, hgrant, by rw [hid, eq_of_beq heq]⟩

end Jobs

namespace Serving

variable {μ : Type} (surroundings : Surroundings) (config : ServerConfig)
  (store : AuthorizedClients) (peerKey : Option HostKey)

/-- What an `Accept` may name for the peer of an entry: in a provider only what is permitted, and
in the agent-wide list only what some provider declares and is permitted. -/
def Discloses (entry : AuthorizedClient) (accept : Accept) : Prop :=
  (∀ provider ∈ accept.providers, ∀ capability ∈ provider.capabilities,
    permits (.policy (.of entry)) capability = true) ∧
  ∀ id ∈ accept.capabilities, ∃ provider ∈ config.providers,
    ∃ capability ∈ provider.capabilities,
      capability.id = id ∧ permits (.policy (.of entry)) capability = true

/-- The frames a peer without a policy is sent: a reject, once its opening is read and if the
reject fits into a frame. -/
def refusalFrames (refusal : ErrorValue) (hello : Option Hello) : List (Sent μ) :=
  match hello, oversized surroundings config (.inr (rejectOf refusal)) with
  | some _, none => [.reject (rejectOf refusal)]
  | _, _ => []

/-- What authorization promises about a connection under a store. -/
structure Authorized (state : Serving μ) : Prop where
  /-- The service is called only as the entry of the peer allows. -/
  calls : ∀ call ∈ state.calls, ∃ entry,
    store.listed surroundings.hash peerKey = some entry ∧ entry.Allows config call
  /-- A peer that proved no key or is not listed causes no call and is sent the refusal alone. -/
  refused : store.listed surroundings.hash peerKey = none →
    state.calls = [] ∧ ∃ refusal,
      resolve surroundings.hash (.store store) peerKey = .error refusal ∧
        state.sent = refusalFrames surroundings config refusal state.hello
  /-- A peer is told only of what it is permitted. -/
  accepted : ∀ accept, .accept accept ∈ state.sent → ∃ entry,
    store.listed surroundings.hash peerKey = some entry ∧ Discloses config entry accept

/-- What the steps of a connection keep: beside the promise, that the bodies without a verdict
against them were allowed, and whose policy a served peer has. -/
structure Sound (state : Serving μ) : Prop where
  authorized : state.Authorized surroundings config store peerKey
  jobs : ∀ job ∈ state.agent.jobs, job.refusal = none → ∃ entry,
    store.listed surroundings.hash peerKey = some entry ∧ entry.Allows config job.call
  idle : store.listed surroundings.hash peerKey = none → state.agent.jobs = []
  opening : state.stage = .opening →
    state.hello = none ∧ state.sent = [] ∧ state.calls = [] ∧ state.agent.jobs = []
  serving : ∀ peer window, state.stage = .serving peer window → ∃ entry,
    store.listed surroundings.hash peerKey = some entry ∧ peer = .policy (.of entry)

variable {surroundings config store peerKey} {state : Serving μ}

theorem sound_initial : (initial : Serving μ).Sound surroundings config store peerKey where
  authorized :=
    { calls := fun _ hcall => absurd hcall not_mem_nil
      refused := fun hlisted =>
        have ⟨refusal, hrefusal⟩ := exists_resolve_store_eq_error hlisted
        ⟨rfl, refusal, hrefusal, rfl⟩
      accepted := fun _ haccept => absurd haccept not_mem_nil }
  jobs _ hjob := absurd hjob not_mem_nil
  idle _ := rfl
  opening _ := ⟨rfl, rfl, rfl, rfl⟩
  serving _ _ h := absurd h (by simp [initial])

namespace Sound

theorem leave (h : state.Sound surroundings config store peerKey)
    (result : Except ErrorValue Unit) :
    (state.leave result).Sound surroundings config store peerKey where
  authorized := ⟨h.authorized.calls, h.authorized.refused, h.authorized.accepted⟩
  jobs := h.jobs
  idle := h.idle
  opening hstage := absurd hstage (by simp [Serving.leave])
  serving _ _ hstage := absurd hstage (by simp [Serving.leave])

/-- A step of the bodies that makes only calls they may make, and sends only where there is a
body, keeps everything. -/
theorem advance (h : state.Sound surroundings config store peerKey) {agent : Agent Job}
    (calls : List Call) (frames : List (Frame μ)) (hjobs : agent.jobs = state.agent.jobs)
    (hcalls : ∀ call ∈ calls, ∃ job ∈ state.agent.jobs, job.refusal = none ∧ job.call = call)
    (hframes : state.agent.jobs = [] → frames = []) :
    { state with
      agent
      calls := state.calls ++ calls
      sent := state.sent ++ frames.map Sent.stream }.Sound surroundings config store peerKey := by
  have hquiet : state.agent.jobs = [] → calls = [] := by
    intro hnil
    refine eq_nil_iff_forall_not_mem.2 fun call hcall => ?_
    obtain ⟨job, hjob, -⟩ := hcalls call hcall
    exact absurd (hnil ▸ hjob) not_mem_nil
  refine ⟨⟨?_, ?_, ?_⟩, hjobs ▸ h.jobs, hjobs ▸ h.idle, ?_, h.serving⟩
  · intro call hcall
    rcases mem_append.1 hcall with hbefore | hnew
    · exact h.authorized.calls call hbefore
    · obtain ⟨job, hjob, hrefusal, rfl⟩ := hcalls call hnew
      exact h.jobs job hjob hrefusal
  · intro hlisted
    have hnil := h.idle hlisted
    obtain ⟨hnone, refusal, hresolve, hsent⟩ := h.authorized.refused hlisted
    refine ⟨by simp [hnone, hquiet hnil], refusal, hresolve, ?_⟩
    simpa [hframes hnil] using hsent
  · intro accept haccept
    rcases mem_append.1 haccept with hbefore | hnew
    · exact h.authorized.accepted accept hbefore
    · obtain ⟨frame, -, hframe⟩ := mem_map.1 hnew
      exact absurd hframe (by simp)
  · intro hstage
    obtain ⟨hhello, hsent, hnone, hnil⟩ := h.opening hstage
    exact ⟨hhello, by simp [hsent, hframes hnil], by simp [hnone, hquiet hnil], hjobs.trans hnil⟩

/-- Starting the body of a request a listed peer made keeps everything, if a body without a verdict
against it is one the peer is allowed. -/
theorem startJob (h : state.Sound surroundings config store peerKey) {entry : AuthorizedClient}
    (hlisted : store.listed surroundings.hash peerKey = some entry)
    (hstage : state.stage ≠ .opening) {window : Nat} {stream : StreamId} {job : Job}
    (hjob : job.refusal = none → entry.Allows config job.call) :
    (state.startJob config window stream job).Sound surroundings config store peerKey := by
  have hsome : store.listed surroundings.hash peerKey ≠ none := by simp [hlisted]
  refine ⟨⟨h.authorized.calls, fun hnone => absurd hnone hsome, ?_⟩, ?_,
    fun hnone => absurd hnone hsome, fun hopening => absurd hopening hstage, h.serving⟩
  · intro accept haccept
    rcases mem_append.1 haccept with hbefore | hnew
    · exact h.authorized.accepted accept hbefore
    · obtain ⟨frame, -, hframe⟩ := mem_map.1 hnew
      exact absurd hframe (by simp)
  · intro old hold hrefusal
    have hmem : old ∈ state.agent.jobs ∨ old = job := by
      rcases jobs_start (μ := μ) config.limits window state.agent stream job with heq | heq
      · exact .inl (heq ▸ hold)
      · simpa using (heq ▸ hold : old ∈ state.agent.jobs ++ [job])
    rcases hmem with hbefore | rfl
    · exact h.jobs old hbefore hrefusal
    · exact ⟨entry, hlisted, hjob hrefusal⟩

/-- Whatever a served peer says, everything is kept. -/
theorem dispatch (h : state.Sound surroundings config store peerKey) {peer : PeerAuthorization}
    {window : Nat} (hstage : state.stage = .serving peer window) (stream : StreamId)
    (message : Message μ) :
    (state.dispatch config peer window stream message).Sound surroundings config store
      peerKey := by
  obtain ⟨entry, hlisted, rfl⟩ := h.serving peer window hstage
  have hserving : state.stage ≠ .opening := by simp [hstage]
  cases message with
  | startQuery query => exact h.startJob hlisted hserving allows_queryJob
  | startSubscribe query => exact h.startJob hlisted hserving allows_subscribeJob
  | startAdapt request => exact h.startJob hlisted hserving allows_adaptJob
  | act request => exact h.startJob hlisted hserving allows_actJob
  | cancel =>
    have hnext := h.advance [] [] (jobs_cancel state.agent stream)
      (by simp) (by simp)
    simpa [Serving.dispatch] using hnext
  | credit granted =>
    have hnext := h.advance [] []
      (jobs_credit config.limits state.agent stream granted.toNat) (by simp) (by simp)
    simpa [Serving.dispatch] using hnext
  | hello | accept | reject | value | event | failure | outcome | finish => exact h.leave _

/-- A peer with no policy is answered with its refusal. -/
theorem answer_of_unlisted (h : state.Sound surroundings config store peerKey)
    (hauthorization : config.authorization = .store store) (hstage : state.stage = .opening)
    (hlisted : store.listed surroundings.hash peerKey = none) (hello : Hello) (writer : Bool) :
    ({ state with hello := some hello }.answer surroundings config peerKey hello writer).Sound
      surroundings config store peerKey := by
  obtain ⟨-, hsent, hcalls, hjobs⟩ := h.opening hstage
  obtain ⟨refusal, hrefusal⟩ := exists_resolve_store_eq_error hlisted
  have hframes (result : Except ErrorValue Unit) (sent : List (Sent μ))
      (heq : sent = refusalFrames surroundings config refusal (some hello)) :
      ({ state with hello := some hello, sent }.leave result).Sound surroundings config store
        peerKey := by
    refine ⟨⟨?_, fun _ => ⟨hcalls, refusal, hrefusal, heq⟩, ?_⟩, h.jobs, h.idle, ?_, ?_⟩
    · exact h.authorized.calls
    · intro accept haccept
      have hmem : Sent.accept accept ∈ refusalFrames surroundings config refusal (some hello) :=
        heq ▸ haccept
      unfold refusalFrames at hmem
      split at hmem <;> simp at hmem
    · exact fun hopening => absurd hopening (by simp [Serving.leave])
    · exact fun _ _ hserving => absurd hserving (by simp [Serving.leave])
  simp only [Serving.answer, hauthorization, hrefusal, Serving.refuseWith]
  split
  next error hoversized =>
    exact hframes _ _ (by simp [hsent, refusalFrames, hoversized])
  next hfits =>
    exact hframes _ _ (by simp [hsent, refusalFrames, hfits])

/-- A listed peer is accepted with what it may see, or refused. -/
theorem answer_of_listed (h : state.Sound surroundings config store peerKey)
    (hauthorization : config.authorization = .store store) (hstage : state.stage = .opening)
    {entry : AuthorizedClient} (hlisted : store.listed surroundings.hash peerKey = some entry)
    (hello : Hello) (writer : Bool) :
    ({ state with hello := some hello }.answer surroundings config peerKey hello writer).Sound
      surroundings config store peerKey := by
  obtain ⟨-, hsent, hcalls, hjobs⟩ := h.opening hstage
  have hsome : store.listed surroundings.hash peerKey ≠ none := by simp [hlisted]
  have hframes (stage : Stage) (sent : List (Sent μ)) (hstage : stage ≠ .opening)
      (hserving : ∀ peer window, stage = .serving peer window → peer = .policy (.of entry))
      (haccepted : ∀ accept, .accept accept ∈ sent → Discloses config entry accept) :
      { state with stage, hello := some hello, sent }.Sound surroundings config store peerKey :=
    { authorized :=
        { calls := h.authorized.calls
          refused := fun hnone => absurd hnone hsome
          accepted := fun accept haccept => ⟨entry, hlisted, haccepted accept haccept⟩ }
      jobs := h.jobs
      idle := h.idle
      opening := fun hopening => absurd hopening hstage
      serving := fun peer window heq => ⟨entry, hlisted, hserving peer window heq⟩ }
  have hleave (result : Except ErrorValue Unit) (reject : List Reject) :
      { state with
        stage := .returned result
        hello := some hello
        sent := state.sent ++ reject.map Sent.reject }.Sound surroundings config store peerKey := by
    refine hframes _ _ (by simp) (by simp) fun accept haccept => ?_
    rw [hsent, nil_append] at haccept
    obtain ⟨_, -, heq⟩ := mem_map.1 haccept
    exact absurd heq (by simp)
  simp only [Serving.answer, hauthorization, resolve_store_of_listed hlisted]
  split
  next reject _ =>
    simp only [Serving.refuseWith]
    split
    · simpa [Serving.leave] using hleave _ []
    · simpa [Serving.leave] using hleave _ [reject]
  next accept hnegotiate =>
    split
    · simpa [Serving.leave] using hleave _ []
    · split_ifs
      · refine hframes _ _ (by simp) (fun peer window heq => ?_) fun other hother => ?_
        · exact (Stage.serving.inj heq).1.symm
        · rw [hsent, nil_append, mem_singleton] at hother
          obtain rfl := Sent.accept.inj hother
          refine ⟨fun provider hprovider capability hcapability => ?_, fun id hid => ?_⟩
          · exact ServerConfig.permits_of_mem_offerFor
              (mem_providers_of_negotiate hnegotiate hprovider) hcapability
          · exact ServerConfig.exists_permits_of_mem_offerFor
              (mem_capabilities_of_negotiate hnegotiate hid)
      · simpa [Serving.leave] using hleave _ []

/-- Whatever opens a connection, everything is kept. -/
theorem openWith (h : state.Sound surroundings config store peerKey)
    (hauthorization : config.authorization = .store store) (hstage : state.stage = .opening)
    (reading : Reading μ) (writer : Bool) :
    (state.openWith surroundings config peerKey reading writer).Sound surroundings config store
      peerKey := by
  match reading with
  | .broken _ | .closed | .frame _ (.error _) => exact h.leave _
  | .frame _ (.ok (.hello hello)) =>
    cases hlisted : store.listed surroundings.hash peerKey with
    | none => exact h.answer_of_unlisted hauthorization hstage hlisted hello writer
    | some entry => exact h.answer_of_listed hauthorization hstage hlisted hello writer
  | .frame _ (.ok (.accept _)) | .frame _ (.ok (.reject _)) | .frame _ (.ok (.startQuery _))
  | .frame _ (.ok (.startSubscribe _)) | .frame _ (.ok (.startAdapt _)) | .frame _ (.ok (.act _))
  | .frame _ (.ok .cancel) | .frame _ (.ok (.credit _)) | .frame _ (.ok (.value _))
  | .frame _ (.ok (.event _)) | .frame _ (.ok (.failure _)) | .frame _ (.ok (.outcome _))
  | .frame _ (.ok .finish) => exact h.leave _

theorem exists_job_of_mem_callOf {call : Call} (hcall : call ∈ state.callOf index) :
    ∃ job ∈ state.agent.jobs, job.refusal = none ∧ job.call = call := by
  unfold Serving.callOf at hcall
  split at hcall
  next body hbody =>
    split at hcall
    · exact absurd hcall not_mem_nil
    next hrefusal =>
      refine ⟨body.job, mem_map_of_mem (mem_of_getElem? hbody), hrefusal, ?_⟩
      exact (mem_singleton.1 hcall).symm
  · exact absurd hcall not_mem_nil

/-- Every step of a connection keeps everything. -/
theorem next (h : state.Sound surroundings config store peerKey)
    (hauthorization : config.authorization = .store store) {step : ServeStep μ}
    {after : Serving μ} (hnext : state.next surroundings config peerKey step = some after) :
    after.Sound surroundings config store peerKey := by
  cases step with
  | timeout =>
    simp only [Serving.next] at hnext
    split at hnext
    · exact some.inj hnext ▸ h.leave _
    · exact absurd hnext (by simp)
  | read reading writer =>
    simp only [Serving.next] at hnext
    split at hnext
    next hstage => exact some.inj hnext ▸ h.openWith hauthorization hstage reading writer
    next peer window hstage =>
      obtain rfl := some.inj hnext
      match reading with
      | .broken _ | .closed | .frame _ (.error _) => exact h.leave _
      | .frame stream (.ok message) => exact h.dispatch hstage stream message
    · exact absurd hnext (by simp)
  | poll index =>
    obtain ⟨agent, hagent, rfl⟩ := map_eq_some_iff.1 hnext
    have hafter := h.advance (state.callOf index) [] (jobs_poll hagent)
      (fun _ hcall => exists_job_of_mem_callOf hcall) (by simp)
    simpa using hafter
  | spend index =>
    obtain ⟨agent, hagent, rfl⟩ := map_eq_some_iff.1 hnext
    simpa using h.advance [] [] (jobs_spend hagent) (by simp) (by simp)
  | send index inbound =>
    simp only [Serving.next] at hnext
    split_ifs at hnext
    obtain ⟨⟨agent, frames⟩, hagent, rfl⟩ := map_eq_some_iff.1 hnext
    obtain ⟨hjobs, hsome⟩ := jobs_send hagent
    simpa using h.advance [] frames hjobs (by simp) (fun hnil => absurd hnil hsome)
  | lose index =>
    obtain ⟨agent, hagent, rfl⟩ := map_eq_some_iff.1 hnext
    simpa using h.advance [] [] (jobs_lose hagent) (by simp) (by simp)
  | finish index =>
    obtain ⟨⟨agent, frames⟩, hagent, rfl⟩ := map_eq_some_iff.1 hnext
    obtain ⟨hjobs, hsome⟩ := jobs_finish hagent
    simpa using h.advance [] frames hjobs (by simp) (fun hnil => absurd hnil hsome)
  | release index =>
    obtain ⟨agent, hagent, rfl⟩ := map_eq_some_iff.1 hnext
    simpa using h.advance [] [] (jobs_release hagent) (by simp) (by simp)

end Sound

end Serving

/-! ### Every connection -/

/-- **Authorization holds on every path.** Whatever a peer sends, in whatever order the bodies of
its requests run, under a store the service is called only as the entry of the peer allows; a peer
without an entry causes no call and is sent the refusal alone, once its opening is read; and an
`Accept` names nothing the peer is not permitted. -/
theorem serve_authorized (μ : Type) (surroundings : Surroundings) (config : ServerConfig)
    (store : AuthorizedClients) (peerKey : Option HostKey)
    (hauthorization : config.authorization = .store store) (steps : List (ServeStep μ))
    (state : Serving μ)
    (hrun : (serve μ surroundings config peerKey).run .initial steps = some state) :
    state.Authorized surroundings config store peerKey := by
  have hreached : (serve μ surroundings config peerKey).Reached (· = .initial)
      (fun _ _ => True) state :=
    .of_run steps (.start rfl) (fun _ _ _ => trivial) hrun
  have hsound : state.Sound surroundings config store peerKey := by
    refine hreached.invariant (fun state hstate => ?_) fun state next step h _ hnext => ?_
    · exact hstate ▸ Serving.sound_initial
    · exact h.next hauthorization hnext
  exact hsound.authorized

/-- Surroundings that hash every key alike and give every answer the same size. -/
def plainSurroundings : Surroundings where
  hash _ := Vector.replicate 32 0
  build := ⟨"ono/0.6", "linux", "x86_64"⟩
  answerSize _ := 512
  patience := "10"

/-- The entry of a client that may observe, and signal processes. -/
def signalling : AuthorizedClient where
  fingerprint := ⟨Vector.replicate 32 0⟩
  label := none
  observe := true
  actions := [⟨"process.signal", by decide +kernel⟩]

/-- An agent that serves one client. -/
def listening : ServerConfig where
  versions := [1]
  providers := [⟨"linux", ["process"], [⟨"process.read", "read", false⟩,
    ⟨"process.signal", "mutate", false⟩, ⟨"service.manage", "mutate", false⟩], none, none⟩]
  capabilities := ["process.read", "service.manage"]
  compression := []
  identity := ⟨"root", none, true⟩
  schemas := []
  limits := .default
  pty := false
  authorization := .store ⟨[signalling], true⟩
  actionCapabilities := [(("process", "signal"), "process.signal")]
  clock := none

/-- An opening that asks for everything on offer. -/
def asking : Hello where
  versions := [1]
  agent := "ono/0.6"
  os := "linux"
  arch := "x86_64"
  providers := []
  schemas := []
  capabilities := []
  compression := []
  pty := false
  identity := ⟨"user", none, false⟩
  creditWindow := 16
  clock := none

/-- A request for every process. -/
def everyProcess : RemoteQuery where
  target := "process"
  verb := ""
  selectors := []
  options := []
  limit := none
  window := none

/-- A client opens a link, asks for every process, and the body of its query is polled. -/
def askedOnce : List (ServeStep Unit) :=
  [.read (.frame 0 (.ok (.hello asking))) true,
    .read (.frame 1 (.ok (.startQuery everyProcess))) true, .poll 0]

theorem serve_authorized_listening :
    ∃ state : Serving Unit,
      (serve Unit plainSurroundings listening (some ⟨"ed25519", []⟩)).run .initial askedOnce =
          some state ∧
        state.calls = [.query (.policy (.of signalling)) everyProcess] ∧
        state.Authorized plainSurroundings listening ⟨[signalling], true⟩
          (some ⟨"ed25519", []⟩) := by
  refine ⟨_, rfl, rfl, ?_⟩
  exact serve_authorized Unit plainSurroundings listening ⟨[signalling], true⟩
    (some ⟨"ed25519", []⟩) rfl askedOnce _ rfl

theorem not_rejected_undecodable :
    ¬ ∀ (config : ServerConfig) (store : AuthorizedClients) (peerKey : Option HostKey)
        (steps : List (ServeStep Unit)) (state : Serving Unit),
      config.authorization = .store store →
      store.listed plainSurroundings.hash peerKey = none →
      (serve Unit plainSurroundings config peerKey).run .initial steps = some state →
      (∃ result, state.stage = .returned result) → ∃ reject, state.sent = [.reject reject] := by
  intro h
  obtain ⟨reject, hsent⟩ := h listening ⟨[signalling], true⟩ none
    [.read (.frame 0 (.error (.malformedPayload "hello" "expected value"))) true] _ rfl rfl rfl
    ⟨_, rfl⟩
  exact absurd hsent (by simp [Serving.openWith, Serving.leave, Serving.initial])

end OnoSendai.Link
