import OnoSendai.Executor.Rerun

/-!
# The claim and its lease

Sessions that apply one plan share its claim row. Taking or extending the claim writes the row with
the session and the instant its lease runs out, and is refused while another session's row has not
run out; releasing it deletes the session's own row. A session extends its lease before it starts an
action and writes the action's record after it ended, however long that took.
-/

namespace OnoSendai

open Interaction Program
open List hiding filter_map

/-! ### The claim row -/

/-- How long a claim lasts, in nanoseconds. -/
def claimLease : Int :=
  300 * 10 ^ 9

/-- The last instant a timestamp can hold, in nanoseconds. -/
def timestampMax : Int :=
  253402207200999999999

/-- An instant as a row holds it. -/
def nanos (instant : Int) : Int :=
  min instant (2 ^ 63 - 1)

/-- When a lease taken at an instant runs out. -/
def plus (now lease : Int) : Int :=
  if now + lease ≤ timestampMax then now + lease else now

/-- The expiry a claim taken or extended at an instant is written with. -/
def leaseEnd (now : Int) : Int :=
  nanos (plus now claimLease)

/-- The claim row of a plan: the session that holds it, and when its lease runs out. -/
abbrev ClaimRow : Type :=
  Option (String × Int)

/-- The row is held at an instant by a session other than this one. -/
def HeldByOther (row : ClaimRow) (session : String) (now : Int) : Prop :=
  ∃ holder expires, row = some (holder, expires) ∧ holder ≠ session ∧ nanos now < expires

/-- The row after a session gave its claim back. A row of another session is left alone. -/
def released (row : ClaimRow) (session : String) : ClaimRow :=
  row.filter (·.1 ≠ session)

/-- An event of a session at an instant. -/
structure Tick where
  session : String
  time : Int
  event : Event world

/-- The claim row of a plan and the latest instant. -/
structure LeaseState where
  row : ClaimRow
  time : Int

/-- How the row changes with one event at an instant. All sessions are alive, and an instant that a
session passes to the store is one the clock showed it. -/
def rowStep (plan : PlanId) (row : ClaimRow) (time : Int) (row' : ClaimRow) : Event world → Prop
  | ⟨.claim id session now, answer⟩ | ⟨.renew id session now, answer⟩ =>
    match answer with
    | .ok () =>
      if id = plan then
        now ≤ time ∧ ¬ HeldByOther row session now ∧ row' = some (session, leaseEnd now)
      else row' = row
    | .error _ => row' = row
  | ⟨.release id session, answer⟩ =>
    if id = plan then row' = released row session ∨ answer ≠ .ok () ∧ row' = row else row' = row
  | ⟨.clock, instant⟩ => instant = time ∧ row' = row
  | _ => row' = row

/-- The claim row of one plan as sessions step it along a clock that never goes back. -/
def leaseStore (plan : PlanId) : Machine Tick LeaseState where
  step state tick state' :=
    state.time ≤ tick.time ∧ state'.time = tick.time ∧
      rowStep plan state.row tick.time state'.row tick.event

/-! ### Sessions -/

/-- The lease of a session after one of its events: when it runs out, while it has one. -/
def grantStep (plan : PlanId) (lease : Option Int) : Event world → Option Int
  | ⟨.claim id _ now, .ok ()⟩ | ⟨.renew id _ now, .ok ()⟩ =>
    if id = plan then some (leaseEnd now) else lease
  | ⟨.release id _, _⟩ => if id = plan then none else lease
  | _ => lease

/-- When the lease of a session runs out, as the store told it last. -/
def granted (plan : PlanId) (events : List (Event world)) : Option Int :=
  events.foldl (grantStep plan) none

/-- The events of one session. -/
def eventsOf (session : String) (ticks : List Tick) : List (Event world) :=
  (ticks.filter (·.session = session)).map (·.event)

/-- The events of a session that applies or resumes a plan, call after call. Each call went on to
some point of its program. -/
inductive SessionTrace (sha256 : Sha256) (render : Renderings) (plan : PlanId) (session : String) :
    List (Event world) → Prop
  | nil : SessionTrace sha256 render plan session []
  | call {before events : List (Event world)} {request : ApplyRequest}
      {rest : Program world ApplyOutcome}
      (earlier : SessionTrace sha256 render plan session before)
      (hplan : request.plan.id = plan) (hsession : request.session = session)
      (path : Path (apply sha256 render request) events rest) :
      SessionTrace sha256 render plan session (before ++ events)

/-- Whether a call writes the record of an action or the state of a plan. -/
def Call.isDurableWrite : Call → Bool
  | recordActionStatus .. | recordState .. => true
  | _ => false

/-! ### What an apply does with the claim -/

/-- The calls about a claim are made for this session. -/
def Call.ClaimsFor (session : String) : Call → Prop
  | claim _ named _ | renew _ named _ | release _ named => named = session
  | _ => True

section Calls

variable {sha256 : Sha256} {render : Renderings} {request : ApplyRequest}
  {events : List (Event world)} {plan : PlanId} {session : String}

theorem within_apply_claimsFor :
    Within (S := world) (fun call : Call => call.ClaimsFor request.session)
      (apply sha256 render request) := by
  refine compositional_apply (compositional_within _) (fun hpreparatory => ?_) (within_ask rfl)
    (within_ask rfl) fun prepared report prior => ?_
  · refine hpreparatory.mono fun call hcall => ?_
    cases call <;> trivial
  · exact within_mutate (fun _ _ => {
      clock := trivial
      renew := fun _ => rfl
      observe := fun _ => trivial
      running := fun _ _ _ => trivial
      execute := fun _ _ => trivial
      settled := fun _ _ _ _ => trivial }) fun _ _ _ _ => trivial

/-- Nothing that is done under the claim gives it back. -/
theorem within_applyClaimed_isRelease :
    Within (S := world) (fun call : Call => call.isRelease = false)
      (applyClaimed sha256 render request) := by
  have hpreparatory : ∀ {α : Type} {program : Program world α}, Preparatory program →
      Within (S := world) (fun call : Call => call.isRelease = false) program :=
    fun h => h.mono fun _ => isRelease_of_isPreparatory
  refine (hpreparatory preparatory_admitRequest).bind fun admitted => ?_
  rcases admitted with outcome | ⟨prior, prepared, report⟩
  · trivial
  · refine (hpreparatory preparatory_persistAssets).bind fun _ =>
      (hpreparatory preparatory_writeState).bind fun _ => within_mutate_isRelease.bind ?_
    rintro ⟨outcome, held⟩
    cases held with
    | false => trivial
    | true => exact (hpreparatory preparatory_writeState).bind fun _ => trivial

/-- An apply writes to the store after it took the claim and before it gives it back. -/
theorem claimed_of_durableWrite {call : Call}
    (h : Reaches (apply sha256 render request) events call) (hwrite : call.isDurableWrite = true) :
    ∃ rest, events = ⟨.claim request.plan.id request.session request.now, .ok ()⟩ :: rest ∧
      ∀ event ∈ rest, event.1.isRelease = false := by
  unfold apply at h
  cases hrefused : refusedUnclaimed sha256 render request with
  | some refusal =>
    rw [hrefused] at h
    exact absurd h not_reaches_ret
  | none =>
    rw [hrefused] at h
    dsimp only at h
    rw [ask_bind] at h
    rcases reaches_call.1 h with ⟨-, rfl⟩ | ⟨answer, tail, rfl, htail⟩
    · cases hwrite
    cases answer with
    | error refusal => exact absurd htail not_reaches_ret
    | ok =>
      refine ⟨tail, rfl, fun event hevent => ?_⟩
      rcases reaches_bind htail with ⟨next, hpath⟩ | ⟨_, _, _, -, hrelease, -⟩
      · exact within_applyClaimed_isRelease.of_mem hpath hevent
      · rcases reaches_call.1 hrelease with ⟨-, rfl⟩ | ⟨_, _, -, hret⟩
        · cases hwrite
        · exact absurd hret not_reaches_ret

theorem SessionTrace.claimsFor (h : SessionTrace sha256 render plan session events) :
    ∀ event ∈ events, event.1.ClaimsFor session := by
  induction h with
  | nil => simp
  | call _ _ hsession path ih =>
    intro event hevent
    rcases mem_append.1 hevent with hevent | hevent
    · exact ih event hevent
    · exact hsession ▸ within_apply_claimsFor.of_mem path hevent

@[simp]
theorem granted_append (before after : List (Event world)) :
    granted plan (before ++ after) = after.foldl (grantStep plan) (granted plan before) := by
  rw [granted, foldl_append]
  rfl

/-- A lease is kept by everything that does not give the claim back. -/
theorem isSome_foldl_grantStep {lease : Option Int} (hlease : lease.isSome = true)
    (h : ∀ event ∈ events, event.1.isRelease = false) :
    (events.foldl (grantStep plan) lease).isSome = true := by
  induction events generalizing lease with
  | nil => exact hlease
  | cons event rest ih =>
    refine ih ?_ fun event hevent => h event (mem_cons_of_mem _ hevent)
    have hrelease := h event mem_cons_self
    have hgrant : ∀ {id : PlanId} {now : Int},
        (if id = plan then some (leaseEnd now) else lease).isSome = true := by
      intro id now
      split_ifs
      · rfl
      · exact hlease
    obtain ⟨call, answer⟩ := event
    cases call with
    | release => cases hrelease
    | claim id named now =>
      cases answer with
      | error refusal => exact hlease
      | ok => exact hgrant
    | renew id named now =>
      cases answer with
      | error refusal => exact hlease
      | ok => exact hgrant
    | _ => exact hlease

/-- A session that writes to the store has been granted a lease. -/
theorem SessionTrace.granted_isSome (h : SessionTrace sha256 render plan session events)
    {before after : List (Event world)} {event : Event world}
    (hevents : events = before ++ event :: after) (hwrite : event.1.isDurableWrite = true) :
    (granted plan before).isSome = true := by
  induction h generalizing before after with
  | nil => simp at hevents
  | @call earlier events request rest _ hplan _ path ih =>
    rcases append_eq_append_iff.1 hevents with ⟨first, rfl, hsplit⟩ | ⟨last, hearlier, hrest⟩
    · obtain ⟨tail, rfl, htail⟩ := claimed_of_durableWrite (path.reaches hsplit) hwrite
      rw [granted_append, foldl_cons]
      refine isSome_foldl_grantStep ?_ htail
      simp [grantStep, hplan]
    · cases last with
      | nil =>
        rw [append_nil] at hearlier
        have hfirst : events = [] ++ event :: after := by simpa using hrest.symm
        obtain ⟨tail, htail, -⟩ := claimed_of_durableWrite (path.reaches hfirst) hwrite
        cases htail
      | cons head last =>
        obtain ⟨rfl, -⟩ := cons.inj hrest
        exact ih hearlier

end Calls

/-! ### Under the lease -/

section Lease

variable {plan : PlanId} {row row' : ClaimRow} {session other : String} {time expires : Int}
  {event : Event world}

/-- An event of a session keeps its row in step with its lease. -/
theorem rowStep_own {lease : Option Int} (h : rowStep plan row time row' event)
    (hclaims : event.1.ClaimsFor session)
    (hrow : ∀ expires, lease = some expires → nanos time < expires → row = some (session, expires))
    (hlease : grantStep plan lease event = some expires) (htime : nanos time < expires) :
    row' = some (session, expires) := by
  have hgrant : ∀ {id : PlanId} {named : String} {now : Int}, named = session →
      (if id = plan then now ≤ time ∧ ¬ HeldByOther row named now ∧
        row' = some (named, leaseEnd now) else row' = row) →
      (if id = plan then some (leaseEnd now) else lease) = some expires →
      row' = some (session, expires) := by
    intro id named now hnamed hstep hsome
    split_ifs at hstep hsome with hid
    · rw [hstep.2.2, hnamed, Option.some.inj hsome]
    · rw [hstep]
      exact hrow expires hsome htime
  obtain ⟨call, answer⟩ := event
  cases call with
  | claim id named now =>
    cases answer with
    | error refusal => exact h.trans (hrow expires hlease htime)
    | ok => exact hgrant hclaims h hlease
  | renew id named now =>
    cases answer with
    | error refusal => exact h.trans (hrow expires hlease htime)
    | ok => exact hgrant hclaims h hlease
  | release id named =>
    simp only [rowStep, grantStep] at h hlease
    split_ifs at h hlease
    rw [h]
    exact hrow expires hlease htime
  | clock => exact h.2.trans (hrow expires hlease htime)
  | _ => exact Eq.trans h (hrow expires hlease htime)

/-- An event of another session leaves the row of a running lease alone. -/
theorem rowStep_other (h : rowStep plan (some (session, expires)) time row' event)
    (hclaims : event.1.ClaimsFor other) (hne : session ≠ other) (htime : nanos time < expires) :
    row' = some (session, expires) := by
  have hrefused : ∀ {id : PlanId} {named : String} {now : Int}, named = other →
      (if id = plan then now ≤ time ∧ ¬ HeldByOther (some (session, expires)) named now ∧
        row' = some (named, leaseEnd now) else row' = some (session, expires)) →
      row' = some (session, expires) := by
    intro id named now hnamed hstep
    split_ifs at hstep with hid
    · refine absurd ⟨session, expires, rfl, hnamed ▸ hne, ?_⟩ hstep.2.1
      have hle : nanos now ≤ nanos time := by
        unfold nanos
        omega
      exact lt_of_le_of_lt hle htime
    · exact hstep
  obtain ⟨call, answer⟩ := event
  cases call with
  | claim id named now =>
    cases answer with
    | error refusal => exact h
    | ok => exact hrefused hclaims h
  | renew id named now =>
    cases answer with
    | error refusal => exact h
    | ok => exact hrefused hclaims h
  | release id named =>
    have hkept : released (some (session, expires)) named = some (session, expires) := by
      have hnamed : named = other := hclaims
      simp [released, Option.filter, hnamed, hne]
    simp only [rowStep, hkept] at h
    split_ifs at h
    · rcases h with h | ⟨-, h⟩ <;> exact h
    · exact h
  | clock => exact h.2
  | _ => exact h

theorem eventsOf_append (session : String) (before after : List Tick) :
    eventsOf session (before ++ after) = eventsOf session before ++ eventsOf session after := by
  simp [eventsOf]

theorem eventsOf_append_singleton (session : String) (before : List Tick) (tick : Tick) :
    eventsOf session (before ++ [tick]) =
      eventsOf session before ++ if tick.session = session then [tick.event] else [] := by
  by_cases hsession : tick.session = session <;> simp [eventsOf, hsession]

/-- **While its lease runs, the row is the session's.** -/
theorem row_of_granted {ticks : List Tick} {state final : LeaseState}
    (h : (leaseStore plan).Runs state ticks final)
    (hclaims : ∀ tick ∈ ticks, tick.event.1.ClaimsFor tick.session)
    (hlease : granted plan (eventsOf session ticks) = some expires)
    (htime : nanos final.time < expires) : final.row = some (session, expires) := by
  have hall := h.invariant
    (fun before state => ∀ session expires,
      granted plan (eventsOf session before) = some expires → nanos state.time < expires →
        state.row = some (session, expires))
    (fun session expires hnone => by simp [eventsOf, granted] at hnone) ?_
  · exact hall session expires hlease htime
  · intro before tick after s s' hticks hstep hinv session expires hlease htime
    obtain ⟨hclock, htick, hrow⟩ := hstep
    have hbefore : nanos s.time ≤ nanos tick.time := by
      unfold nanos
      omega
    have hclaim := hclaims tick (by simp [hticks])
    rw [htick] at htime
    rw [eventsOf_append_singleton] at hlease
    by_cases hsession : tick.session = session
    · rw [if_pos hsession, granted_append] at hlease
      refine rowStep_own hrow (hsession ▸ hclaim) (fun expires' hsome htime' => ?_) hlease htime
      exact hinv session expires' hsome (lt_of_le_of_lt hbefore htime')
    · rw [if_neg hsession, append_nil] at hlease
      have hsame := hinv session expires hlease (lt_of_le_of_lt hbefore htime)
      rw [hsame] at hrow
      exact rowStep_other hrow hclaim (Ne.symm hsession) htime

/-- **Writes are made under the claim**, in every interleaving of sessions that apply or resume one
plan whose durable writes all come before the writer's lease, as it was granted last, has run out:
whenever a session writes the record of an action or the state of the plan, the claim row is not
held by another session. -/
theorem writes_under_claim (sha256 : Sha256) (render : Renderings) (plan : PlanId)
    {ticks : List Tick} {state : LeaseState}
    (hsessions : ∀ session, SessionTrace sha256 render plan session (eventsOf session ticks))
    (hleased : ∀ before tick after, ticks = before ++ tick :: after →
      tick.event.1.isDurableWrite = true → ∀ expires,
        granted plan (eventsOf tick.session before) = some expires → nanos tick.time < expires) :
    ∀ before tick after mid next, ticks = before ++ tick :: after →
      (leaseStore plan).Runs state before mid → (leaseStore plan).step mid tick next →
        tick.event.1.isDurableWrite = true → ¬ HeldByOther mid.row tick.session tick.time := by
  rintro before tick after mid next hticks hbefore ⟨hclock, -, -⟩ hwrite
    ⟨holder, expires', hrow, hholder, -⟩
  have hsplit : eventsOf tick.session ticks =
      eventsOf tick.session before ++ tick.event :: eventsOf tick.session after := by
    simp [hticks, eventsOf]
  obtain ⟨expires, hlease⟩ := Option.isSome_iff_exists.1
    ((hsessions tick.session).granted_isSome hsplit hwrite)
  have htime := hleased before tick after hticks hwrite expires hlease
  have hmid : nanos mid.time < expires := by
    unfold nanos at htime ⊢
    omega
  have hclaims : ∀ tick ∈ before, tick.event.1.ClaimsFor tick.session := by
    intro other hother
    refine (hsessions other.session).claimsFor other.event ?_
    exact mem_map_of_mem (mem_filter.2 ⟨by simp [hticks, hother], by simp⟩)
  rw [row_of_granted hbefore hclaims hlease hmid] at hrow
  exact hholder (Prod.mk.inj (Option.some.inj hrow)).1.symm

end Lease

/-! ### An action that outlasts the lease -/

/-- What an executed action came back as is recorded next. -/
def RecordsOutcome (request : ApplyRequest) (event : Event world) (tail : List (Event world))
    (call : Call) : Prop :=
  ∃ action outcome, event = ⟨.execute action, outcome⟩ ∧
    Reaches (recordSettled request action outcome) tail call

/-- A claim is taken at the instant of the request and extended at that instant or at one the clock
showed. -/
def ClaimedAt (request : ApplyRequest) (events : List (Event world)) : Call → Prop
  | .claim _ _ now => now = request.now
  | .renew _ _ now => now = request.now ∨ (⟨.clock, now⟩ : Event world) ∈ events
  | _ => True

variable {session : String}

section Takeover

variable {sha256 : Sha256} {render : Renderings} {request : ApplyRequest}
  {events : List (Event world)}

theorem continues_runAction_recordsOutcome (action : PlanAction) (progress : TargetProgress) :
    Continues (S := world) (RecordsOutcome request) (runAction request action progress) := by
  rintro events event tail op hreach ⟨other, outcome, rfl, hsettled⟩
  rcases reaches_bind hreach with hstart | ⟨started, answer, after, hstarted, hafter, rfl⟩
  · exact absurd hstart quiet_startAction.not_reaches
  cases answer with
  | error failure => exact absurd hafter not_reaches_ret
  | ok =>
    rcases reaches_bind hafter with hexecute | ⟨_, _, _, -, hret, -⟩
    · obtain ⟨rfl, rfl⟩ := reaches_executeAction hexecute
      rw [append_nil]
      refine hstarted.bind_reaches (Reaches.bind_left ?_ _)
      rw [executeAction, ask_bind]
      exact reaches_call.2 (.inr ⟨outcome, tail, rfl, hsettled.bind_left _⟩)
    · exact absurd hret not_reaches_ret

theorem continues_apply_recordsOutcome :
    Continues (S := world) (RecordsOutcome request) (apply sha256 render request) := by
  have hquiet : ∀ {α : Type} {program : Program world α}, Quiet program →
      Continues (S := world) (RecordsOutcome request) program := by
    intro α program h
    refine h.continues ?_
    rintro event tail op hevent ⟨action, outcome, rfl, -⟩
    cases hevent
  refine compositional_apply compositional_continues (fun hpreparatory => hquiet hpreparatory.quiet)
    (hquiet (within_ask rfl)) (hquiet (within_ask rfl)) fun prepared report prior => ?_
  exact compositional_mutate compositional_continues (hquiet (within_ask rfl))
    (fun _ _ _ _ => hquiet (within_ask rfl))
    (fun _ _ action _ progress => continues_runAction_recordsOutcome action progress)
    fun _ => hquiet (within_ask rfl)

theorem compositional_claimedAt (request : ApplyRequest) :
    Compositional (S := world) fun _ program => program.Justified (ClaimedAt request) := by
  refine compositional_justified fun before events op h => ?_
  cases op with
  | renew id session now => exact h.imp_right fun hclock => mem_append_right _ hclock
  | claim => exact h
  | _ => trivial

theorem claimedAt_runAction (action : PlanAction) (progress : TargetProgress) :
    Justified (S := world) (ClaimedAt request) (runAction request action progress) := by
  have hcompositional := compositional_claimedAt request
  have hother : ∀ {α : Type} {program : Program world α},
      Within (S := world) (fun call => ∀ events, ClaimedAt request events call) program →
      Justified (S := world) (ClaimedAt request) program :=
    fun h => h.justified fun events op hop => hop events
  refine hcompositional.bind ?_ fun answer => ?_
  · intro events op hreach
    rcases reaches_bind hreach with hclock | ⟨first, instant, second, hfirst, hsecond, rfl⟩
    · have hstamp : Within (S := world) (· = Call.clock) request.stamp := within_stamp rfl
      obtain rfl : op = Call.clock := hstamp.of_reaches hclock
      trivial
    · rw [ask_bind] at hsecond
      rcases reaches_call.1 hsecond with ⟨rfl, rfl⟩ | ⟨answer, tail, rfl, htail⟩
      · rw [append_nil]
        unfold ApplyRequest.stamp at hfirst
        split_ifs at hfirst
        · rw [ask_eq] at hfirst
          obtain ⟨answer, last, rfl, hret⟩ := returns_call.1 hfirst
          obtain ⟨rfl, rfl⟩ := returns_ret.1 hret
          exact .inr mem_cons_self
        · exact .inl (returns_ret.1 hfirst).2
      · refine (?_ : Within (S := world) (ClaimedAt request _) _).of_reaches htail
        cases answer with
        | error refusal => trivial
        | ok => exact (within_stamp trivial).bind fun _ => within_ask trivial
  · cases answer with
    | error failure => exact hcompositional.ret _
    | ok =>
      refine hother (Within.bind ?_ fun _ => trivial)
      rw [executeAction, ask_bind]
      exact ⟨fun _ => trivial, fun outcome => (within_recordSettled (fun _ => trivial)
        fun _ _ => trivial).bind fun _ => trivial⟩

/-- An apply takes the claim at its own instant, and extends it at that instant or at one the clock
showed it. -/
theorem claimedAt_apply :
    Justified (S := world) (ClaimedAt request) (apply sha256 render request) := by
  have hask : ∀ call : Call, (∀ events, ClaimedAt request events call) →
      Justified (S := world) (ClaimedAt request) (ask call) := fun call hcall =>
    have hwithin : Within (S := world) (· = call) (ask call) := within_ask rfl
    hwithin.justified fun events op hop => hop ▸ hcall events
  refine compositional_apply (compositional_claimedAt request) (fun hpreparatory => ?_)
    (hask _ fun _ => rfl) (hask _ fun _ => trivial) fun prepared report prior => ?_
  · refine hpreparatory.justified fun events op hop => ?_
    cases op <;> trivial
  · exact compositional_mutate (compositional_claimedAt request) (hask _ fun _ => trivial)
      (fun _ _ _ _ => hask _ fun _ => trivial)
      (fun _ _ action _ progress => claimedAt_runAction action progress)
      fun _ => hask _ fun _ => trivial

/-- An event of a session that does everything about its claim at one instant and keeps it. -/
def PromptAt (session : String) (time : Int) : Event world → Prop
  | ⟨.claim _ named now, _⟩ | ⟨.renew _ named now, _⟩ => named = session ∧ now = time
  | ⟨.release .., _⟩ => False
  | ⟨.clock, instant⟩ => instant = time
  | _ => True

/-- The events of a session at one instant. -/
def ticksAt (session : String) (time : Int) (events : List (Event world)) : List Tick :=
  events.map (Tick.mk session time)

@[simp]
theorem eventsOf_ticksAt (session other : String) (time : Int) (events : List (Event world)) :
    eventsOf other (ticksAt session time events) = if session = other then events else [] := by
  by_cases hsame : session = other <;>
    simp [eventsOf, ticksAt, List.filter_map, Function.comp_def, hsame]

/-- The row permits what a session does alone at one instant. -/
theorem runs_ticksAt (plan : PlanId) {time : Int} {row : ClaimRow}
    (h : ∀ event ∈ events, PromptAt session time event)
    (hrow : row = none ∨ row = some (session, leaseEnd time)) :
    ∃ row', (leaseStore plan).Runs ⟨row, time⟩ (ticksAt session time events) ⟨row', time⟩ ∧
      (row' = none ∨ row' = some (session, leaseEnd time)) := by
  induction events generalizing row with
  | nil => exact ⟨row, .nil _, hrow⟩
  | cons event rest ih =>
    have hfree : ¬ HeldByOther row session time := by
      rintro ⟨holder, expires, hheld, hholder, -⟩
      rcases hrow with hnone | hown
      · rw [hnone] at hheld
        cases hheld
      · rw [hown] at hheld
        exact hholder (Prod.mk.inj (Option.some.inj hheld)).1.symm
    have hstep : ∃ next, rowStep plan row time next event ∧
        (next = none ∨ next = some (session, leaseEnd time)) := by
      have hprompt := h event mem_cons_self
      have hgrant : ∀ {id : PlanId} {named : String} {now : Int}, named = session ∧ now = time →
          ∃ next, (if id = plan then now ≤ time ∧ ¬ HeldByOther row named now ∧
            next = some (named, leaseEnd now) else next = row) ∧
              (next = none ∨ next = some (session, leaseEnd time)) := by
        rintro id named now ⟨rfl, rfl⟩
        by_cases hid : id = plan
        · exact ⟨_, by rw [if_pos hid]; exact ⟨le_rfl, hfree, rfl⟩, .inr rfl⟩
        · exact ⟨row, by rw [if_neg hid], hrow⟩
      obtain ⟨call, answer⟩ := event
      cases call with
      | claim id named now =>
        cases answer with
        | error refusal => exact ⟨row, rfl, hrow⟩
        | ok => exact hgrant hprompt
      | renew id named now =>
        cases answer with
        | error refusal => exact ⟨row, rfl, hrow⟩
        | ok => exact hgrant hprompt
      | release => exact absurd hprompt id
      | clock => exact ⟨row, ⟨hprompt, rfl⟩, hrow⟩
      | _ => exact ⟨row, rfl, hrow⟩
    obtain ⟨next, hnext, hrow'⟩ := hstep
    obtain ⟨row', hrest, hfinal⟩ := ih (fun event hevent => h event (mem_cons_of_mem _ hevent))
      hrow'
    exact ⟨row', .cons ⟨le_rfl, rfl, hnext⟩ hrest, hfinal⟩

/-- Up to an action it executes, an apply in a calm world is prompt. -/
theorem promptAt_of_reaches {action : PlanAction}
    (h : Reaches (apply sha256 render request) events (.execute action))
    (hcalm : ∀ event ∈ events, event.2 = calm request.plan request.now event.1) :
    ∀ event ∈ events, PromptAt request.session request.now event := by
  obtain ⟨rest, hclaimed, hkept⟩ := (cleared_of_reaches h).claimed
  obtain ⟨next, hpath⟩ := h
  intro event hevent
  have hfor := within_apply_claimsFor.of_mem hpath hevent
  have hanswer := hcalm event hevent
  obtain ⟨before, after, hsplit⟩ := append_of_mem hevent
  have hat := claimedAt_apply before event.1 (hpath.reaches hsplit)
  have hrelease : event.1.isRelease = false := by
    rw [hclaimed] at hevent
    rcases mem_cons.1 hevent with rfl | hevent
    · rfl
    · exact hkept event hevent
  obtain ⟨call, answer⟩ := event
  cases call with
  | claim id named now => exact ⟨hfor, hat⟩
  | renew id named now =>
    refine ⟨hfor, ?_⟩
    rcases hat with hnow | hclock
    · exact hnow
    · exact hcalm ⟨.clock, now⟩ (by rw [hsplit]; exact mem_append_left _ hclock)
  | release => cases hrelease
  | clock => exact hanswer
  | _ => trivial

/-- A prompt session was granted a lease from that instant, if any. -/
theorem granted_of_promptAt {plan : PlanId} {time expires : Int}
    (h : ∀ event ∈ events, PromptAt session time event)
    (hlease : granted plan events = some expires) : expires = leaseEnd time := by
  have hall : ∀ lease : Option Int, (∀ value, lease = some value → value = leaseEnd time) →
      ∀ value, events.foldl (grantStep plan) lease = some value → value = leaseEnd time := by
    clear hlease
    induction events with
    | nil => exact fun lease hlease => hlease
    | cons event rest ih =>
      refine fun lease hlease => ih (fun event hevent => h event (mem_cons_of_mem _ hevent)) _ ?_
      have hprompt := h event mem_cons_self
      have hgrant : ∀ {id : PlanId} {now : Int}, now = time → ∀ value,
          (if id = plan then some (leaseEnd now) else lease) = some value →
            value = leaseEnd time := by
        intro id now hnow value hvalue
        split_ifs at hvalue
        · rw [← Option.some.inj hvalue, hnow]
        · exact hlease value hvalue
      obtain ⟨call, answer⟩ := event
      cases call with
      | claim id named now =>
        cases answer with
        | error refusal => exact hlease
        | ok => exact hgrant hprompt.2
      | renew id named now =>
        cases answer with
        | error refusal => exact hlease
        | ok => exact hgrant hprompt.2
      | release => exact absurd hprompt id
      | _ => exact hlease
  exact hall none (by simp) expires hlease

end Takeover

section Sessions

variable (sha256 : Sha256) (render : Renderings)

/-- An apply of the rollout by a session with a clock. -/
def sessionRequest (session : String) (now : Int) : ApplyRequest :=
  { rolloutRequest sha256 render databaseId webId ["db", "web"] with
    session := session
    now := now
    stamped := true }

theorem refusedUnclaimed_sessionRequest (session : String) (now : Int) :
    refusedUnclaimed sha256 render (sessionRequest sha256 render session now) = none := by
  have hdigest : (rolloutPlan sha256 render databaseId webId ["db", "web"]).digestHolds sha256
      render = true := decide_eq_true rfl
  simp only [refusedUnclaimed, sessionRequest, rolloutRequest, hdigest]
  rfl

/-- A session in a calm world gets to the migration. -/
theorem reaches_migrate (session : String) (now : Int) :
    ∃ before, Reaches (apply sha256 render (sessionRequest sha256 render session now)) before
        (.execute (migrateAction sha256 render databaseId)) ∧
      ∀ event ∈ before, PromptAt session now event := by
  obtain ⟨events, outcome, hret, -, hexecuted⟩ := calmly_apply sha256 render
    (sessionRequest sha256 render session now)
    (refusedUnclaimed_sessionRequest sha256 render session now) rfl rfl rfl rfl rfl rfl
    (topologicalOrder_rolloutPlan sha256 render)
  rw [show (sessionRequest sha256 render session now).plan =
    rolloutPlan sha256 render databaseId webId ["db", "web"] from rfl,
    (planSchedule_rolloutPlan sha256 render).2, ← nil_append [migrateAction _ _ _, _]]
    at hexecuted
  obtain ⟨before, hreach, hinitial, -⟩ := reaches_of_returns hret.1 hexecuted
  exact ⟨before, hreach, promptAt_of_reaches hreach fun event hevent =>
    hret.2 event (hinitial.subset hevent)⟩

/-- The record that the migration succeeded, stamped at an instant. -/
def migrated (instant : Int) : Event world :=
  ⟨.recordActionStatus (rolloutDraft sha256 render).id 1 databaseId 1 .succeeded instant none,
    .ok ()⟩

/-- After the migration came back, the session asks for the time and records it. -/
theorem sessionTrace_migrated {now : Int} {before : List (Event world)}
    (h : Reaches (apply sha256 render (sessionRequest sha256 render session now)) before
      (.execute (migrateAction sha256 render databaseId))) (late : Int) :
    SessionTrace sha256 render (rolloutDraft sha256 render).id session
      ((before ++ [⟨.execute (migrateAction sha256 render databaseId), .succeeded⟩]) ++
        [⟨.clock, late⟩, migrated sha256 render late]) := by
  have hsettled : Reaches (recordSettled (sessionRequest sha256 render session now)
      (migrateAction sha256 render databaseId) .succeeded) [⟨.clock, late⟩]
      (migrated sha256 render late).1 :=
    reaches_call.2 (.inr ⟨late, [], rfl, reaches_call.2 (.inl ⟨rfl, rfl⟩)⟩)
  have hreach := continues_apply_recordsOutcome before
    ⟨.execute (migrateAction sha256 render databaseId), .succeeded⟩ [⟨.clock, late⟩]
    (migrated sha256 render late).1 h ⟨_, _, rfl, hsettled⟩
  obtain ⟨rest, hpath⟩ := hreach.path (.ok ())
  have htrace : SessionTrace sha256 render (rolloutDraft sha256 render).id session
      ([] ++ ((before ++ [⟨.execute (migrateAction sha256 render databaseId), .succeeded⟩,
        ⟨.clock, late⟩]) ++ [migrated sha256 render late])) :=
    .call .nil rfl rfl hpath
  simpa using htrace

end Sessions

/-- A rollout by one session in which no time passes. -/
theorem writes_under_claim_rollout :
    nanos 0 < leaseEnd 0 ∧
    ∀ sha256 render, ∃ events mid next,
      SessionTrace sha256 render (rolloutDraft sha256 render).id "session-1"
        (events ++ [migrated sha256 render 0]) ∧
      (leaseStore (rolloutDraft sha256 render).id).Runs ⟨none, 0⟩ (ticksAt "session-1" 0 events)
        mid ∧
      (leaseStore (rolloutDraft sha256 render).id).step mid
        ⟨"session-1", 0, migrated sha256 render 0⟩ next ∧ ¬ HeldByOther mid.row "session-1" 0 := by
  have hlease : nanos 0 < leaseEnd 0 := by decide
  refine ⟨hlease, fun sha256 render => ?_⟩
  obtain ⟨before, hreach, hprompt⟩ := reaches_migrate sha256 render "session-1" 0
  have htrace := sessionTrace_migrated sha256 render hreach 0
  rw [append_cons] at htrace
  generalize hevents : before ++ [⟨.execute (migrateAction sha256 render databaseId), .succeeded⟩] ++
    [(⟨.clock, (0 : Int)⟩ : Event world)] = events at htrace
  have hall : ∀ event ∈ events, PromptAt "session-1" 0 event := by
    intro event hevent
    simp only [← hevents, mem_append, mem_singleton] at hevent
    rcases hevent with (hevent | rfl) | rfl
    · exact hprompt event hevent
    · trivial
    · rfl
  obtain ⟨row, hruns, -⟩ := runs_ticksAt (rolloutDraft sha256 render).id hall (.inl rfl)
  have hstep : (leaseStore (rolloutDraft sha256 render).id).step ⟨row, 0⟩
      ⟨"session-1", 0, migrated sha256 render 0⟩ ⟨row, 0⟩ := ⟨le_rfl, rfl, rfl⟩
  refine ⟨events, ⟨row, 0⟩, ⟨row, 0⟩, htrace, hruns, hstep, ?_⟩
  have hsessions : ∀ session, SessionTrace sha256 render (rolloutDraft sha256 render).id session
      (eventsOf session (ticksAt "session-1" 0 (events ++ [migrated sha256 render 0]))) := by
    intro session
    rw [eventsOf_ticksAt]
    split_ifs with hsession
    · exact hsession ▸ htrace
    · exact .nil
  refine writes_under_claim sha256 render (rolloutDraft sha256 render).id hsessions ?_
    (ticksAt "session-1" 0 events) ⟨"session-1", 0, migrated sha256 render 0⟩ [] ⟨row, 0⟩ ⟨row, 0⟩
    (by simp [ticksAt]) hruns hstep rfl
  intro first tick last hticks hwrite expires hgranted
  obtain ⟨early, late, hsplit, rfl, hlate⟩ := map_eq_append_iff.1 hticks
  obtain ⟨event, rest, rfl, rfl, -⟩ := map_eq_cons_iff.1 hlate
  have hearly : ∀ event ∈ early, PromptAt "session-1" 0 event := by
    intro other hother
    have hmem : other ∈ events ++ [migrated sha256 render 0] := by simp [hsplit, hother]
    rcases mem_append.1 hmem with hmem | hmem
    · exact hall other hmem
    · rw [mem_singleton.1 hmem]
      trivial
  change granted _ (eventsOf "session-1" (ticksAt "session-1" 0 early)) = some expires at hgranted
  rw [eventsOf_ticksAt, if_pos rfl] at hgranted
  rw [granted_of_promptAt hearly hgranted]
  exact hlease

/-- **A session overwrites its successor.** The migration takes as long as the lease; another session
takes the claim when it has run out, and the first one then records that the migration succeeded
while the row is the other's. -/
theorem settled_after_takeover :
    ¬ ∃ (sha256 : Sha256) (render : Renderings), ∀ ticks before tick after mid next,
      (∀ session, SessionTrace sha256 render (rolloutDraft sha256 render).id session
        (eventsOf session ticks)) →
      ticks = before ++ tick :: after →
      (leaseStore (rolloutDraft sha256 render).id).Runs ⟨none, 0⟩ before mid →
      (leaseStore (rolloutDraft sha256 render).id).step mid tick next →
      tick.event.1.isDurableWrite = true → ¬ HeldByOther mid.row tick.session tick.time := by
  rintro ⟨sha256, render, hclaim⟩
  obtain ⟨before, hreach, hprompt⟩ := reaches_migrate sha256 render "session-1" 0
  have htrace := sessionTrace_migrated sha256 render hreach claimLease
  generalize hevents : before ++
    [⟨.execute (migrateAction sha256 render databaseId), .succeeded⟩] = events at htrace
  have hall : ∀ event ∈ events, PromptAt "session-1" 0 event := by
    intro event hevent
    rw [← hevents] at hevent
    rcases mem_append.1 hevent with hevent | hevent
    · exact hprompt event hevent
    · rw [mem_singleton.1 hevent]
      trivial
  obtain ⟨row, hfirst, hrow⟩ := runs_ticksAt (rolloutDraft sha256 render).id hall (.inl rfl)
  have hend : leaseEnd 0 = nanos claimLease ∧ nanos claimLease < leaseEnd claimLease := by decide
  let taken : Tick := ⟨"session-2", claimLease,
    ⟨.claim (rolloutDraft sha256 render).id "session-2" claimLease, .ok ()⟩⟩
  have htaken : (leaseStore (rolloutDraft sha256 render).id).step ⟨row, 0⟩ taken
      ⟨some ("session-2", leaseEnd claimLease), claimLease⟩ := by
    refine ⟨show (0 : Int) ≤ claimLease by decide, rfl, ?_⟩
    have hfree : ¬ HeldByOther row "session-2" claimLease := by
      rintro ⟨holder, expires, hheld, -, hexpires⟩
      rcases hrow with hnone | hown
      · rw [hnone] at hheld
        cases hheld
      · rw [hown] at hheld
        rw [← (Prod.mk.inj (Option.some.inj hheld)).2, hend.1] at hexpires
        exact lt_irrefl _ hexpires
    simp [rowStep, taken, hfree]
  let asked : Tick := ⟨"session-1", claimLease, ⟨.clock, claimLease⟩⟩
  let recorded : Tick := ⟨"session-1", claimLease, migrated sha256 render claimLease⟩
  have hasked : (leaseStore (rolloutDraft sha256 render).id).step
      ⟨some ("session-2", leaseEnd claimLease), claimLease⟩ asked
      ⟨some ("session-2", leaseEnd claimLease), claimLease⟩ := ⟨le_rfl, rfl, rfl, rfl⟩
  have hrecorded : (leaseStore (rolloutDraft sha256 render).id).step
      ⟨some ("session-2", leaseEnd claimLease), claimLease⟩ recorded
      ⟨some ("session-2", leaseEnd claimLease), claimLease⟩ := ⟨le_rfl, rfl, rfl⟩
  have hsessions : ∀ session, SessionTrace sha256 render (rolloutDraft sha256 render).id session
      (eventsOf session (ticksAt "session-1" 0 events ++ [taken, asked] ++ [recorded])) := by
    intro session
    rw [eventsOf_append, eventsOf_append, eventsOf_ticksAt]
    by_cases hone : "session-1" = session
    · subst hone
      rw [if_pos rfl, append_assoc]
      exact htrace
    by_cases htwo : "session-2" = session
    · subst htwo
      have hreaches : Reaches (apply sha256 render (sessionRequest sha256 render "session-2"
          claimLease)) [] taken.event.1 := by
        rw [apply, refusedUnclaimed_sessionRequest]
        exact ⟨_, .nil _⟩
      obtain ⟨rest, hpath⟩ := hreaches.path (.ok ())
      have htaking : SessionTrace sha256 render (rolloutDraft sha256 render).id "session-2"
          ([] ++ [taken.event]) := .call .nil rfl rfl hpath
      exact htaking
    · simp only [eventsOf, taken, asked, recorded, hone, htwo, if_false, filter_cons,
        decide_false, Bool.false_eq_true, filter_nil, map_nil, append_nil]
      exact .nil
  exact hclaim _ _ recorded [] _ _ hsessions rfl
    (hfirst.append (.cons htaken (.cons hasked (.nil _)))) hrecorded rfl
    ⟨"session-2", leaseEnd claimLease, rfl, show "session-2" ≠ "session-1" by decide, hend.2⟩

end OnoSendai
