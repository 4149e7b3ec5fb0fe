import OnoSendai.Kuang.Emit
import OnoSendai.Lib.Transition

/-!
# The output of an invocation

A plugin emits into the output stream of an invocation, and whoever called it reads. The actor that
stands between them charges every value it keeps to the credit of the stream, and each read grants
one more, by a message to the actor (`ono_kuang_supervisor`, `Actor::host_emit` and
`RunningInvocation::next`). Emissions and closes of the plugin, reads, and the messages of the
reader come in any order; a read and the message it sends are two steps.

A plugin that breaks the protocol is stopped, and its streams fail.
-/

namespace OnoSendai.Kuang

open Interaction List Transition

/-! ### A stream with both ends -/

/-- What an instance was loaded with. -/
structure Instance where
  package : String
  readers : Readers
  policy : OverflowPolicy
  render : Members → String

/-- A message of the reader to the actor. -/
inductive Message
  | demand (credit : ℕ)
  | cancelStream

/-- An output stream: what the actor holds of it, what was sent along it and is unread, what was
read, whether a read has still to demand more, the messages on their way, the values that were
dropped, by overflow, and whether the plugin is running. -/
structure Output where
  stream : Option OutStream
  queue : List StreamEvent
  read : List StreamEvent
  owed : Bool
  mailbox : List Message
  logs : List ℕ
  running : Bool

/-- A stream as it is opened, with as much credit as the queue is deep. -/
def Output.opened (depth : UInt32) (expected : Expected) : Output where
  stream := some ⟨depth.toNat, false, expected⟩
  queue := []
  read := []
  owed := false
  mailbox := []
  logs := []
  running := true

/-- What is recorded of an emission beyond the credit: how many of its values were dropped. -/
def overflow (policy : OverflowPolicy) (render : Members → String) (credit : ℕ)
    (values : List Json) : List ℕ :=
  if values.length ≤ credit then []
  else
    match fitting policy render credit values with
    | .ok (some kept) => [values.length - kept.length]
    | _ => []

/-- One step: of the plugin, of the actor with a message, or of the reader. -/
inductive Act
  | emit (values : List Json)
  | close (error : Option ErrorValue)
  | respond
  | handle
  | receive
  | demand
  | cancel

namespace Output

/-- Stops the plugin. What is open fails. -/
def quarantine (output : Output) (error : ErrorValue) : Output :=
  { output with
    stream := none
    queue := output.queue ++ (if output.stream.isSome then [.failed error] else [])
    running := false }

/-- An emission of the plugin. -/
def emit (inst : Instance) (output : Output) (handle : ℕ) (values : List Json) : Output :=
  match output.stream with
  | none =>
    output.quarantine (protocolViolation ("an emission into handle " ++ toString handle ++
      " which is not the plugin's to write"))
  | some stream =>
    match hostEmit inst.package inst.readers inst.policy inst.render stream values with
    | .error error => output.quarantine error
    | .ok emission =>
      { output with
        stream := emission.stream
        queue := output.queue ++ emission.events
        logs := output.logs ++ overflow inst.policy inst.render stream.credit values }

/-- A close of the plugin. -/
def close (output : Output) (handle : ℕ) (error : Option ErrorValue) : Output :=
  match output.stream with
  | none =>
    output.quarantine (protocolViolation ("a close of handle " ++ toString handle ++
      " which is not the plugin's"))
  | some _ =>
    { output with stream := none, queue := output.queue ++ error.toList.map .failed }

/-- A message the actor takes. -/
def taken (output : Output) : Message → Output
  | .demand credit =>
    { output with
      stream := output.stream.map fun stream =>
        if stream.cancelled then stream
        else { stream with credit := min (2 ^ 32 - 1) (stream.credit + credit) } }
  | .cancelStream =>
    { output with stream := output.stream.map fun stream => { stream with cancelled := true } }

/-- One step, where it can be taken. -/
def act (inst : Instance) (handle : ℕ) (output : Output) : Act → Option Output
  | .emit values => if output.running then some (output.emit inst handle values) else none
  | .close error => if output.running then some (output.close handle error) else none
  | .respond => if output.running then some { output with stream := none } else none
  | .handle =>
    match output.mailbox with
    | message :: messages =>
      if output.running then some ({ output with mailbox := messages }.taken message) else none
    | [] => none
  | .receive =>
    match output.queue with
    | event :: events =>
      if output.owed then none
      else some { output with queue := events, read := output.read ++ [event], owed := true }
    | [] => none
  | .demand =>
    if output.owed then
      some { output with mailbox := output.mailbox ++ [.demand 1], owed := false }
    else none
  | .cancel => some { output with mailbox := output.mailbox ++ [.cancelStream] }

end Output

/-- The values among events. -/
def valuesOf (events : List StreamEvent) : List Value :=
  events.filterMap fun event =>
    match event with
    | .value value => some value
    | .failed _ => none

namespace Output

/-- Everything that was sent along the stream. -/
def sent (output : Output) : List StreamEvent :=
  output.read ++ output.queue

/-- How many values are delivered and unread. -/
def unread (output : Output) : ℕ :=
  (valuesOf output.queue).length

/-- The demands on their way: those a read has still to send, and those the actor has to take. -/
def inFlight (output : Output) : ℕ :=
  output.owed.toNat + (output.mailbox.map fun message =>
    match message with
    | .demand credit => credit
    | .cancelStream => 0).sum

/-- Whether the stream is cancelled or no more. -/
def Over (output : Output) : Prop :=
  ∀ stream ∈ output.stream, stream.cancelled = true

end Output

/-- No older state of an object stands before a newer one. -/
def NoOlder (render : Members → String) (values : List Json) : Prop :=
  values.Pairwise fun older newer => ∀ identity ∈ coalescingIdentity render older,
    coalescingIdentity render newer ≠ some identity

/-- No older state of what is told to be an object stands before a newer one. -/
def NoOlderState (identityOf : Json → Option String) (values : List Json) : Prop :=
  values.Pairwise fun older newer => ∀ identity ∈ identityOf older,
    identityOf newer ≠ some identity

/-- The stream has ended in a failure. -/
def Output.Failed (output : Output) : Prop :=
  output.stream = none ∧ ∃ error, output.sent.getLast? = some (.failed error)

/-- **What becomes of the values of an emission**. It is refused as a whole, when the stream is over
or fails for it. Otherwise some values are delivered, in the order of the emission; the rest of what
is kept comes after the stream was over, or failed; and what is not kept is recorded as dropped.
Where updates are combined and the emission is beyond the credit, no older state of an object is
kept with a newer one. -/
inductive Accounted (inst : Instance) (before after : Output) (values : List Json) : Prop
  | refused (hsent : valuesOf after.sent = valuesOf before.sent) (hlogs : after.logs = before.logs)
      (hover : before.stream = none ∨ after.Failed) : Accounted inst before after values
  | kept (stream : OutStream) (delivered rest : List Json) (sent : List Value) (dropped : List ℕ)
      (hstream : before.stream = some stream)
      (hsublist : (delivered ++ rest).Sublist values)
      (hcount : (delivered ++ rest).length + dropped.sum = values.length)
      (hlogs : after.logs = before.logs ++ dropped)
      (hsent : valuesOf after.sent = valuesOf before.sent ++ sent)
      (hemitted : Forall₂ (fun json value =>
        emitted inst.package inst.readers stream.expected json = .ok value) delivered sent)
      (hrest : rest ≠ [] → before.Over ∨ after.Failed)
      (hcoalesce : inst.policy = .coalesce → stream.credit < values.length →
        NoOlder inst.render (delivered ++ rest)) : Accounted inst before after values

/-- **What is meant to become of the values of an emission**, where `identityOf` tells the object a
document is a state of. What is not delivered is recorded as dropped or follows a failure or a
cancellation; and where updates are combined, no older state of an object is kept with a newer. -/
inductive Promised (identityOf : Json → Option String) (inst : Instance) (cancelled : Prop)
    (before after : Output) (values : List Json) : Prop
  | refused (hsent : valuesOf after.sent = valuesOf before.sent) (hlogs : after.logs = before.logs)
      (hover : cancelled ∨ before.Failed ∨ after.Failed) :
      Promised identityOf inst cancelled before after values
  | kept (stream : OutStream) (delivered rest : List Json) (sent : List Value) (dropped : List ℕ)
      (hstream : before.stream = some stream)
      (hsublist : (delivered ++ rest).Sublist values)
      (hcount : (delivered ++ rest).length + dropped.sum = values.length)
      (hlogs : after.logs = before.logs ++ dropped)
      (hsent : valuesOf after.sent = valuesOf before.sent ++ sent)
      (hemitted : Forall₂ (fun json value =>
        emitted inst.package inst.readers stream.expected json = .ok value) delivered sent)
      (hrest : rest ≠ [] → before.Over ∨ after.Failed)
      (hcoalesce : inst.policy = .coalesce → NoOlderState identityOf (delivered ++ rest)) :
      Promised identityOf inst cancelled before after values

/-- The emissions of which the promise is kept: none goes into a stream that ended without a failure
or a cancellation; and where updates are combined, two states of an object stand in an emission only
beyond the credit, and both write one identity at their top. -/
structure Output.Meets (identityOf : Json → Option String) (inst : Instance) (cancelled : Prop)
    (before : Output) (values : List Json) : Prop where
  ended : before.stream = none → cancelled ∨ before.Failed
  states : inst.policy = .coalesce → ∀ stream ∈ before.stream,
    values.Pairwise fun older newer => ∀ identity ∈ identityOf older,
      identityOf newer = some identity → stream.credit < values.length ∧
        ∃ written ∈ coalescingIdentity inst.render older,
          coalescingIdentity inst.render newer = some written

/-- An emission that is accounted for keeps the promise where the condition is met. -/
theorem Accounted.promised {identityOf : Json → Option String} {inst : Instance} {cancelled : Prop}
    {before after : Output} {values : List Json} (h : Accounted inst before after values)
    (hmeets : before.Meets identityOf inst cancelled values) :
    Promised identityOf inst cancelled before after values := by
  cases h with
  | refused hsent hlogs hover =>
    refine .refused hsent hlogs ?_
    rcases hover with hnone | hfailed
    · exact (hmeets.ended hnone).imp_right .inl
    · exact .inr (.inr hfailed)
  | kept stream delivered rest sent dropped hstream hsublist hcount hlogs hsent hemitted hrest
      hcoalesce =>
    refine .kept stream delivered rest sent dropped hstream hsublist hcount hlogs hsent hemitted
      hrest fun hpolicy => ?_
    have hstates := (hmeets.states hpolicy stream hstream).sublist hsublist
    by_cases hcredit : stream.credit < values.length
    · -- Beyond the credit the identities at the top are told apart by combining them.
      refine (hstates.and (hcoalesce hpolicy hcredit)).imp fun hboth identity hidentity hsame => ?_
      obtain ⟨-, written, hwritten, hagain⟩ := hboth.1 identity hidentity hsame
      exact hboth.2 written hwritten hagain
    · exact hstates.imp fun hstate identity hidentity hsame =>
        hcredit (hstate identity hidentity hsame).1

/-! ### One emission -/

section Emission

variable {policy : OverflowPolicy} {render : Members → String} {credit : ℕ}
  {values kept : List Json} {package : String} {readers : Readers} {expected : Expected}

theorem coalesceByIdentity_sublist (render : Members → String) (values : List Json) :
    (coalesceByIdentity render values).Sublist values := by
  induction values with
  | nil => exact .slnil
  | cons json rest ih =>
    rw [coalesceByIdentity]
    split_ifs
    · exact ih.cons json
    · exact ih.cons_cons json

theorem noOlder_coalesceByIdentity (render : Members → String) (values : List Json) :
    NoOlder render (coalesceByIdentity render values) := by
  induction values with
  | nil => exact .nil
  | cons json rest ih =>
    rw [coalesceByIdentity]
    split_ifs with hreplaced
    · exact ih
    · refine pairwise_cons.2 ⟨fun newer hnewer identity hidentity hsame => hreplaced ?_, ih⟩
      have hmem := (coalesceByIdentity_sublist render rest).subset hnewer
      rw [Option.mem_def.1 hidentity, Option.any_some, any_eq_true]
      exact ⟨newer, hmem, decide_eq_true hsame⟩

/-- **What an overflow policy keeps**: some of the values in their order, at most as many as there is
credit for, the others recorded as dropped. -/
theorem fitting_spec (h : fitting policy render credit values = .ok (some kept)) :
    kept.Sublist values ∧ kept.length ≤ credit ∧
      kept.length + (overflow policy render credit values).sum = values.length ∧
      (policy = .coalesce → credit < values.length → NoOlder render kept) := by
  have hoverflow (hcredit : ¬values.length ≤ credit) :
      overflow policy render credit values = [values.length - kept.length] := by
    rw [overflow, if_neg hcredit, h]
  by_cases hcredit : values.length ≤ credit
  · rw [fitting.eq_def, if_pos hcredit] at h
    obtain rfl : values = kept := by simpa using h
    exact ⟨.refl _, hcredit, by simp [overflow, hcredit], fun _ hlt => absurd hcredit (by omega)⟩
  · have hsum (hsublist : kept.Sublist values) :
        kept.length + (overflow policy render credit values).sum = values.length := by
      have hle := hsublist.length_le
      rw [hoverflow hcredit, sum_singleton]
      omega
    rw [fitting.eq_def, if_neg hcredit] at h
    cases policy with
    | blockUpstream | failStream => simp at h
    | dropNewest =>
      obtain rfl : values.take credit = kept := by simpa using h
      exact ⟨take_sublist _ _, length_take_le _ _, hsum (take_sublist _ _), nofun⟩
    | dropOldest =>
      obtain rfl : values.drop (values.length - credit) = kept := by simpa using h
      refine ⟨drop_sublist _ _, ?_, hsum (drop_sublist _ _), nofun⟩
      rw [length_drop]
      omega
    | coalesce =>
      obtain rfl : (coalesceByIdentity render values).drop
          ((coalesceByIdentity render values).length - credit) = kept := by simpa using h
      have hsublist := (drop_sublist ((coalesceByIdentity render values).length - credit)
        (coalesceByIdentity render values))
      refine ⟨hsublist.trans (coalesceByIdentity_sublist _ _), ?_,
        hsum (hsublist.trans (coalesceByIdentity_sublist _ _)), fun _ _ => ?_⟩
      · rw [length_drop]
        omega
      · exact (noOlder_coalesceByIdentity render values).sublist hsublist

theorem deliver_spec (kept : List Json) :
    ∃ delivered rest, kept = delivered ++ rest ∧
      Forall₂ (fun json value => emitted package readers expected json = .ok value) delivered
        (deliver package readers expected kept).1 ∧
      ((deliver package readers expected kept).2 = none → rest = []) := by
  induction kept with
  | nil => exact ⟨[], [], rfl, .nil, fun _ => rfl⟩
  | cons json kept ih =>
    rw [deliver]
    cases hemitted : emitted package readers expected json with
    | error error => exact ⟨[], json :: kept, rfl, .nil, nofun⟩
    | ok value =>
      obtain ⟨delivered, rest, hkept, hforall, hnone⟩ := ih
      exact ⟨json :: delivered, rest, by rw [hkept, cons_append], .cons hemitted hforall, hnone⟩

/-- **What an emission into an open stream comes to.** -/
theorem hostEmit_cases (stream : OutStream) (values : List Json) :
    (∃ error, hostEmit package readers policy render stream values = .error error) ∨
      (∃ error, hostEmit package readers policy render stream values = .ok (.failing [] error) ∧
        overflow policy render stream.credit values = []) ∨
      ∃ kept reply, fitting policy render stream.credit values = .ok (some kept) ∧
        ((stream.cancelled = true ∧ hostEmit package readers policy render stream values =
          .ok ⟨[], some { stream with credit := stream.credit - kept.length }, reply⟩) ∨
        (stream.cancelled = false ∧ ∃ error,
          (deliver package readers stream.expected kept).2 = some error ∧
          hostEmit package readers policy render stream values =
            .ok (.failing (deliver package readers stream.expected kept).1 error)) ∨
        (stream.cancelled = false ∧ (deliver package readers stream.expected kept).2 = none ∧
          hostEmit package readers policy render stream values =
            .ok ⟨(deliver package readers stream.expected kept).1.map .value,
              some { stream with credit := stream.credit - kept.length }, reply⟩)) := by
  rw [hostEmit]
  split_ifs with hlarge hcancelled
  · exact .inl ⟨_, rfl⟩
  · cases hfitting : fitting policy render stream.credit values with
    | error error => exact .inl ⟨error, rfl⟩
    | ok found =>
      cases found with
      | none =>
        refine .inr (.inl ⟨_, rfl, ?_⟩)
        rw [overflow, hfitting, ite_self]
      | some kept => exact .inr (.inr ⟨kept, _, rfl, .inl ⟨hcancelled, rfl⟩⟩)
  · cases hfitting : fitting policy render stream.credit values with
    | error error => exact .inl ⟨error, rfl⟩
    | ok found =>
      cases found with
      | none =>
        refine .inr (.inl ⟨_, rfl, ?_⟩)
        rw [overflow, hfitting, ite_self]
      | some kept =>
        refine .inr (.inr ⟨kept, .ok (stream.credit - kept.length), rfl, .inr ?_⟩)
        have hopen : stream.cancelled = false := by simpa using hcancelled
        cases hdelivered : (deliver package readers stream.expected kept).2 with
        | none =>
          refine .inr ⟨hopen, rfl, ?_⟩
          simp [bind, Except.bind, hdelivered]
          rfl
        | some error =>
          refine .inl ⟨hopen, error, rfl, ?_⟩
          simp [bind, Except.bind, hdelivered]
          rfl

end Emission

/-! ### One step -/

section Step

variable {inst : Instance} {handle depth : ℕ} {output next : Output} {values : List Json}

@[simp]
theorem valuesOf_append (events others : List StreamEvent) :
    valuesOf (events ++ others) = valuesOf events ++ valuesOf others :=
  filterMap_append

@[simp]
theorem valuesOf_map_value (values : List Value) : valuesOf (values.map .value) = values := by
  induction values with
  | nil => rfl
  | cons value values ih => exact congrArg (value :: ·) ih

@[simp]
theorem valuesOf_failed (error : ErrorValue) : valuesOf [.failed error] = [] :=
  rfl

theorem length_deliver_le (package : String) (readers : Readers) (expected : Expected)
    (kept : List Json) : (deliver package readers expected kept).1.length ≤ kept.length := by
  obtain ⟨delivered, rest, hkept, hemitted, -⟩ := @deliver_spec package readers expected kept
  have hlength := hemitted.length_eq
  have hle := congrArg length hkept
  rw [length_append] at hle
  omega

/-- Credit, unread values and demands on their way are as many as the queue is deep, as long as the
stream is open and not cancelled, and never more while it is open. -/
structure Output.Conserved (depth : ℕ) (output : Output) : Prop where
  unread_le : output.unread ≤ depth
  plain : output.stream.isSome → ∀ event ∈ output.queue, ∃ value, event = .value value
  balance : ∀ stream ∈ output.stream,
    stream.credit + output.unread + output.inFlight ≤ depth ∧
      (stream.cancelled = false → stream.credit + output.unread + output.inFlight = depth)

theorem Output.Conserved.of_closed (hstream : next.stream = none)
    (hunread : next.unread ≤ depth) : next.Conserved depth where
  unread_le := hunread
  plain h := by simp [hstream] at h
  balance stream h := by simp [hstream] at h

theorem Output.Conserved.quarantine (h : output.Conserved depth) (error : ErrorValue) :
    (output.quarantine error).Conserved depth := by
  refine .of_closed rfl ?_
  have hunread : (output.quarantine error).unread = output.unread := by
    cases hstream : output.stream <;> simp [Output.quarantine, Output.unread, hstream]
  rw [hunread]
  exact h.unread_le

theorem Output.Conserved.emit (h : output.Conserved depth) (values : List Json) :
    (output.emit inst handle values).Conserved depth := by
  cases hstream : output.stream with
  | none =>
    rw [Output.emit, hstream]
    exact h.quarantine _
  | some stream =>
    obtain ⟨hle, hbalance⟩ := h.balance stream hstream
    have hplain := h.plain (by simp [hstream])
    rcases @hostEmit_cases inst.policy inst.render inst.package inst.readers stream values with
      ⟨error, hemit⟩ | ⟨error, hemit, -⟩ | ⟨kept, reply, hfitting, hkept⟩
    · rw [Output.emit, hstream]
      simp only [hemit]
      exact h.quarantine error
    · rw [Output.emit, hstream]
      simp only [hemit]
      refine .of_closed rfl ?_
      simpa [Output.unread, Emission.failing] using h.unread_le
    · obtain ⟨-, hfits, -, -⟩ := fitting_spec hfitting
      have hsent := length_deliver_le inst.package inst.readers stream.expected kept
      rcases hkept with ⟨hcancelled, hemit⟩ | ⟨-, error, -, hemit⟩ | ⟨hopen, hall, hemit⟩
      · rw [Output.emit, hstream]
        simp only [hemit, append_nil]
        refine ⟨h.unread_le, fun _ => hplain, ?_⟩
        rintro _ ⟨⟩
        refine ⟨?_, fun hnot => ?_⟩
        · simp only [Output.unread, Output.inFlight] at hle ⊢
          omega
        · simp [hcancelled] at hnot
      · rw [Output.emit, hstream]
        simp only [hemit]
        refine .of_closed rfl ?_
        simp only [Output.unread, Emission.failing, valuesOf_append, valuesOf_map_value,
          valuesOf_failed, append_nil, length_append] at hle ⊢
        omega
      · have hlength : (deliver inst.package inst.readers stream.expected kept).1.length =
            kept.length := by
          obtain ⟨delivered, rest, hsplit, hemitted, hnone⟩ :=
            @deliver_spec inst.package inst.readers stream.expected kept
          rw [← hemitted.length_eq, hsplit, hnone hall, append_nil]
        rw [Output.emit, hstream]
        simp only [hemit]
        refine ⟨?_, fun _ event hevent => ?_, ?_⟩
        · simp only [Output.unread, valuesOf_append, valuesOf_map_value, length_append] at hle ⊢
          omega
        · rcases mem_append.1 hevent with hevent | hevent
          · exact hplain event hevent
          · obtain ⟨value, -, rfl⟩ := mem_map.1 hevent
            exact ⟨value, rfl⟩
        · rintro _ ⟨⟩
          have hall := hbalance hopen
          simp only [Output.unread, Output.inFlight, valuesOf_append, valuesOf_map_value,
            length_append] at hle hall ⊢
          exact ⟨by omega, fun _ => by omega⟩

theorem Output.Conserved.taken (h : output.Conserved depth) (hdepth : depth < 2 ^ 32)
    {message : Message} {messages : List Message} (hmailbox : output.mailbox = message :: messages) :
    ({ output with mailbox := messages }.taken message).Conserved depth := by
  cases hstream : output.stream with
  | none =>
    refine .of_closed ?_ ?_
    · cases message <;> rfl
    · cases message <;> exact h.unread_le
  | some stream =>
    obtain ⟨hle, hbalance⟩ := h.balance stream hstream
    have hplain := h.plain (by simp [hstream])
    cases message with
    | cancelStream =>
      refine ⟨h.unread_le, fun _ => hplain, ?_⟩
      intro found hfound
      obtain rfl : { stream with cancelled := true } = found := by
        simpa [Output.taken, hstream] using hfound
      refine ⟨?_, nofun⟩
      simp only [Output.unread, Output.inFlight, hmailbox, map_cons, sum_cons,
        Output.taken] at hle ⊢
      omega
    | demand credit =>
      refine ⟨h.unread_le, fun _ => hplain, ?_⟩
      intro found hfound
      cases hcancelled : stream.cancelled with
      | true =>
        obtain rfl : stream = found := by
          simpa [Output.taken, hstream, hcancelled] using hfound
        refine ⟨?_, fun hnot => by simp [hcancelled] at hnot⟩
        simp only [Output.unread, Output.inFlight, hmailbox, map_cons, sum_cons,
          Output.taken] at hle ⊢
        omega
      | false =>
        obtain rfl : { stream with credit := min (2 ^ 32 - 1) (stream.credit + credit) } =
            found := by
          simpa [Output.taken, hstream, hcancelled] using hfound
        have hall := hbalance hcancelled
        simp only [Output.unread, Output.inFlight, hmailbox, map_cons, sum_cons,
          Output.taken] at hle hall ⊢
        exact ⟨by omega, fun _ => by omega⟩

/-- **The balance is kept** by every step. -/
theorem Output.Conserved.act (h : output.Conserved depth) (hdepth : depth < 2 ^ 32) {act : Act}
    (hact : output.act inst handle act = some next) : next.Conserved depth := by
  cases act with
  | emit values =>
    simp only [Output.act] at hact
    split_ifs at hact
    cases hact
    exact h.emit values
  | close error =>
    simp only [Output.act] at hact
    split_ifs at hact
    cases hact
    rw [Output.close]
    cases hstream : output.stream with
    | none => exact h.quarantine _
    | some stream =>
      refine .of_closed rfl ?_
      have hnone : valuesOf (error.toList.map .failed) = [] := by cases error <;> rfl
      simpa [Output.unread, hnone] using h.unread_le
  | respond =>
    simp only [Output.act] at hact
    split_ifs at hact
    cases hact
    exact .of_closed rfl h.unread_le
  | handle =>
    simp only [Output.act] at hact
    cases hmailbox : output.mailbox with
    | nil => simp [hmailbox] at hact
    | cons message messages =>
      rw [hmailbox] at hact
      dsimp only at hact
      split_ifs at hact
      cases hact
      exact h.taken hdepth hmailbox
  | receive =>
    simp only [Output.act] at hact
    cases hqueue : output.queue with
    | nil => simp [hqueue] at hact
    | cons event events =>
      rw [hqueue] at hact
      dsimp only at hact
      split_ifs at hact with howed
      cases hact
      have hunread : (valuesOf events).length ≤ (valuesOf output.queue).length := by
        rw [hqueue]
        cases event <;> simp [valuesOf]
      refine ⟨Nat.le_trans hunread h.unread_le, fun hsome other hother => ?_,
        fun stream hstream => ?_⟩
      · exact h.plain hsome other (by rw [hqueue]; exact mem_cons_of_mem _ hother)
      · obtain ⟨value, rfl⟩ := h.plain (Option.isSome_of_mem hstream) event (by simp [hqueue])
        have hbalance := h.balance stream hstream
        have hnot : output.owed = false := by simpa using howed
        simp only [Output.unread, Output.inFlight, hqueue, hnot, valuesOf, Bool.toNat_false,
          Bool.toNat_true, filterMap_cons, length_cons] at hbalance ⊢
        exact ⟨by omega, fun hopen => by have := hbalance.2 hopen; omega⟩
  | demand =>
    simp only [Output.act] at hact
    split_ifs at hact with howed
    cases hact
    refine ⟨h.unread_le, h.plain, fun stream hstream => ?_⟩
    have hbalance := h.balance stream hstream
    simp only [Output.unread, Output.inFlight, howed, Bool.toNat_false, Bool.toNat_true,
      map_append, sum_append, map_cons, map_nil, sum_cons,
      sum_nil] at hbalance ⊢
    exact ⟨by omega, fun hopen => by have := hbalance.2 hopen; omega⟩
  | cancel =>
    cases hact
    refine ⟨h.unread_le, h.plain, fun stream hstream => ?_⟩
    have hbalance := h.balance stream hstream
    simpa [Output.unread, Output.inFlight] using hbalance

end Step

/-! ### Every run -/

section Runs

variable {inst : Instance} {handle : ℕ} {output final : Output} {acts : List Act}

end Runs

/-! ### Two states of an object -/

end OnoSendai.Kuang
