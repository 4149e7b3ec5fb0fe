import OnoSendai.Kuang.Emit
import OnoSendai.Lib.Binary64

/-!
# Streams a plugin pulls

A stream of the host is pulled by the plugin, so many values a call (`ono_kuang_supervisor`,
`streams.next`). What has arrived is held until it is asked for; a call waits for the first value
only, until a deadline that it may set itself, and the deadline is any document. When a stream is
over, the call that finds nothing left of it says so, and its handle is gone.

What arrives in time is not up to the host: a call is given along with the number of answers its
source has for it. A source is finite, and ends in completion or in an error.
-/

namespace OnoSendai.Kuang

open List Binary64

/-! ### Deadlines -/

/-- A number as binary floating point. -/
def asF64 : Number → UInt64
  | .posInt number => ofInt number.toNat
  | .negInt number => ofInt number.toInt
  | .float bits => bits

/-- The greatest number of seconds of a duration, and one. -/
def secondsLimit : ℕ :=
  2 ^ 64

/-- A number of seconds in nanoseconds, to the nearest one. None where it panics. -/
def fromSecsF64 (seconds : UInt64) : Option ℕ :=
  if (secondsLimit * grain : ℤ) ≤ units seconds then none
  else some (roundEven ((units seconds).toNat * 10 ^ 9) grain)

/-- What is read of a deadline. -/
inductive Deadline
  | panicked
  | absent
  | after (nanoseconds : ℕ)
deriving DecidableEq

/-- Reads a deadline: seconds, a span, or either under the name of a duration. `parseSpan` reads the
signed nanoseconds of a span. -/
def durationOf (parseSpan : String → Option ℤ) : Json → Deadline
  | .number seconds =>
    if partialCmp (asF64 seconds) 0 = some .gt then
      match fromSecsF64 (asF64 seconds) with
      | some nanoseconds => .after nanoseconds
      | none => .panicked
    else .absent
  | .string text =>
    match parseSpan text with
    | some span => if span < 0 then .absent else .after span.toNat
    | none => .absent
  | .object members => ofMembers members
  | _ => .absent
where
  /-- Reads the member that names a duration. -/
  ofMembers : Members → Deadline
    | [] => .absent
    | (name, value) :: rest =>
      if name = "$duration" then durationOf parseSpan value else ofMembers rest

/-- A deadline from the limit of a duration on: a number of so many seconds, or a duration that is
one. -/
inductive Endless : Json → Prop
  | number {seconds : Number} (hnumber : isNaN (asF64 seconds) = false)
      (h : (secondsLimit * grain : ℤ) ≤ units (asF64 seconds)) :
      Endless (.number seconds)
  | named {members : Members} {value : Json} (hlookup : members.lookup "$duration" = some value)
      (h : Endless value) : Endless (.object members)

section Deadlines

variable {parseSpan : String → Option ℤ}

theorem ofMembers_eq (members : Members) :
    durationOf.ofMembers parseSpan members =
      match members.lookup "$duration" with
      | some value => durationOf parseSpan value
      | none => .absent := by
  induction members with
  | nil => rfl
  | cons entry members ih =>
    obtain ⟨name, value⟩ := entry
    rw [durationOf.ofMembers, lookup_cons]
    by_cases hname : name = "$duration"
    · simp [hname]
    · have hbeq : ("$duration" == name) = false := beq_false_of_ne (Ne.symm hname)
      rw [if_neg hname, ih, hbeq]

theorem durationOf_number_eq_panicked_iff (seconds : Number) :
    durationOf parseSpan (.number seconds) = .panicked ↔
      isNaN (asF64 seconds) = false ∧ (secondsLimit * grain : ℤ) ≤ units (asF64 seconds) := by
  have hgrain : (0 : ℤ) < secondsLimit * grain := by decide +kernel
  rw [durationOf, fromSecsF64]
  constructor
  · intro h
    split_ifs at h with hpositive hlimit
    refine ⟨?_, hlimit⟩
    rw [partialCmp] at hpositive
    by_contra hnan
    simp [Bool.eq_true_of_not_eq_false hnan] at hpositive
  · rintro ⟨hnan, hlimit⟩
    have hpositive : partialCmp (asF64 seconds) 0 = some .gt := by
      have hzero : units 0 = 0 := by decide +kernel
      rw [partialCmp_of_isNaN_eq_false hnan (by decide +kernel),
        ← compare_units, hzero]
      exact congrArg some (compare_gt_iff_gt.2 (hgrain.trans_le hlimit))
    rw [if_pos hpositive, if_pos hlimit]

/-- **Which deadlines end in a panic**: those from the limit of a duration on. -/
theorem durationOf_eq_panicked_iff (json : Json) :
    durationOf parseSpan json = .panicked ↔ Endless json := by
  constructor
  · intro h
    induction hsize : sizeOf json using Nat.strong_induction_on generalizing json with
    | _ size ih =>
      cases json with
      | null | bool | array => simp [durationOf] at h
      | number seconds =>
        obtain ⟨hnumber, hlimit⟩ := (durationOf_number_eq_panicked_iff seconds).1 h
        exact .number hnumber hlimit
      | string text =>
        rw [durationOf] at h
        cases hspan : parseSpan text with
        | none => simp [hspan] at h
        | some span =>
          rw [hspan] at h
          dsimp only at h
          split_ifs at h
      | object members =>
        rw [durationOf, ofMembers_eq] at h
        cases hlookup : members.lookup "$duration" with
        | none => simp [hlookup] at h
        | some value =>
          rw [hlookup] at h
          refine .named hlookup (ih (sizeOf value) ?_ value h rfl)
          have hmember := sizeOf_lt_of_mem (Json.mem_of_lookup hlookup)
          rw [← hsize]
          simp only [Json.object.sizeOf_spec, Prod.mk.sizeOf_spec] at hmember ⊢
          omega
  · intro h
    induction h with
    | number hnumber hlimit => exact (durationOf_number_eq_panicked_iff _).2 ⟨hnumber, hlimit⟩
    | named hlookup _ ih =>
      rw [durationOf, ofMembers_eq, hlookup]
      exact ih

end Deadlines

/-! ### Streams -/

/-- A live source: the values it has still to give, and the error it ends in, if any. -/
structure Source where
  values : List Json
  failure : Option ErrorValue

/-- A stream the plugin pulls: what has arrived, the source it comes from or the listener it is,
with the peers still to come, and how it ended. -/
structure Inbound where
  values : List Json
  live : Option Source
  accepted : Option (List (String × Source))
  complete : Bool
  error : Option ErrorValue

/-- The streams of an instance, by their handles, and the next handle. -/
structure Streams where
  inbound : ℕ → Option Inbound
  nextHandle : ℕ

/-- Takes in what has arrived, up to what is wanted. -/
def Inbound.fill (wanted : ℕ) : ℕ → Inbound → Inbound
  | 0, stream => stream
  | arrivals + 1, stream =>
    match stream.live with
    | none => stream
    | some source =>
      if stream.values.length < wanted then
        match source.values with
        | value :: values =>
          fill wanted arrivals
            { stream with values := stream.values ++ [value], live := some { source with values } }
        | [] =>
          match source.failure with
          | some error => { stream with error := some error, complete := true, live := none }
          | none => { stream with complete := true, live := none }
      else stream

namespace Streams

/-- Opens a stream under the next handle. -/
def opened (streams : Streams) (stream : Inbound) : Streams where
  inbound := Function.update streams.inbound streams.nextHandle (some stream)
  nextHandle := streams.nextHandle + 1

/-- Opens a stream over values already produced. -/
def openInbound (streams : Streams) (values : List Json) : Streams :=
  streams.opened ⟨values, none, none, true, none⟩

/-- Opens a stream over a live source. -/
def openLive (streams : Streams) (source : Source) : Streams :=
  streams.opened ⟨[], some source, none, false, none⟩

/-- Opens a connection as a stream. -/
def openConnection (streams : Streams) (incoming : Source) : Streams :=
  streams.opened ⟨[], some incoming, none, false, none⟩

/-- Opens a listener as a stream. -/
def openListener (streams : Streams) (peers : List (String × Source)) : Streams :=
  streams.opened ⟨[], none, some peers, false, none⟩

/-- What a listener says of a peer it accepted. -/
def connectionJson (handle : ℕ) (peer : String) : Json :=
  .object [("connection", .number (.posInt (.ofNat handle))), ("peer", .string peer)]

/-- Takes in the peers that have arrived, up to what is wanted, and opens their connections. -/
def accept (wanted : ℕ) : ℕ → Streams → Inbound → Streams × Inbound
  | 0, streams, stream => (streams, stream)
  | arrivals + 1, streams, stream =>
    match stream.accepted with
    | none => (streams, stream)
    | some peers =>
      if stream.values.length < wanted then
        match peers with
        | (peer, incoming) :: peers =>
          accept wanted arrivals (streams.openConnection incoming)
            { stream with
              values := stream.values ++ [connectionJson streams.nextHandle peer]
              accepted := some peers }
        | [] => (streams, { stream with complete := true, accepted := none })
      else (streams, stream)

end Streams

/-! ### Calls -/

/-- The parameters of a call. -/
structure NextParams where
  handle : UInt64
  max : UInt64
  deadline : Option Json

/-- Reads the parameters of a call. They are named, or stand in their order. -/
def NextParams.ofJson : Json → Option NextParams
  | .object members => do
    let handle ← (← members.lookup "handle").asU64
    let max ← (← members.lookup "max").asU64
    some ⟨handle, max, deadline (members.lookup "deadline")⟩
  | .array [handle, max] => do
    some ⟨← handle.asU64, ← max.asU64, none⟩
  | .array [handle, max, given] => do
    some ⟨← handle.asU64, ← max.asU64, deadline (some given)⟩
  | _ => none
where
  /-- A deadline that is given, and not as null. -/
  deadline : Option Json → Option Json
    | some .null => none
    | given => given

/-- The answer to a call. -/
structure NextResult where
  values : List Json
  complete : Bool
  error : Option ErrorValue

/-- A call as it arrives, and how many answers the source of its stream has for it in time. -/
structure Pull where
  params : Json
  arrivals : ℕ

/-- What becomes of a call. -/
inductive Outcome
  | panicked
  | violated (error : ErrorValue)
  | answered (result : NextResult) (streams : Streams)

namespace Streams

/-- Takes in what has arrived at a stream. -/
def takeIn (wanted arrivals : ℕ) (streams : Streams) (stream : Inbound) : Streams × Inbound :=
  if stream.accepted.isSome then accept wanted arrivals streams stream
  else (streams, stream.fill wanted arrivals)

/-- Answers a call. -/
def next (parseSpan : String → Option ℤ) (malformed : Json → String) (streams : Streams)
    (pull : Pull) : Outcome :=
  match NextParams.ofJson pull.params with
  | none => .violated (protocolViolation ("malformed call parameters: " ++ malformed pull.params))
  | some params =>
    if params.deadline.any (durationOf parseSpan · = .panicked) then .panicked
    else
      match streams.inbound params.handle.toNat with
      | none =>
        .violated (protocolViolation ("`streams.next` on handle " ++ toString params.handle ++
          ", which the host never opened"))
      | some stream =>
        let filled := takeIn params.max.toNat pull.arrivals streams stream
        let stream := filled.2
        let values := stream.values.take params.max.toNat
        let stream := { stream with values := stream.values.drop params.max.toNat }
        let complete := stream.complete && stream.values.isEmpty
        .answered ⟨values, complete, if complete then stream.error else none⟩
          { filled.1 with
            inbound := Function.update filled.1.inbound params.handle.toNat
              (if complete then none else some stream) }

end Streams

/-- A call that was answered. -/
structure Answer where
  params : NextParams
  arrivals : ℕ
  result : NextResult

/-- What calls come to: the answers, up to the call that broke the protocol or panicked. -/
structure Trace where
  answers : List Answer
  panicked : Bool

/-- Answers calls one after another. -/
def Streams.pullAll (parseSpan : String → Option ℤ) (malformed : Json → String) :
    Streams → List Pull → Trace
  | _, [] => ⟨[], false⟩
  | streams, pull :: pulls =>
    match NextParams.ofJson pull.params, streams.next parseSpan malformed pull with
    | some params, .answered result streams =>
      let trace := pullAll parseSpan malformed streams pulls
      ⟨⟨params, pull.arrivals, result⟩ :: trace.answers, trace.panicked⟩
    | _, .panicked => ⟨[], true⟩
    | _, _ => ⟨[], false⟩

/-! ### What calls come to -/

/-- What a stream has to give: a value, or a peer, which is given as a connection. -/
inductive Item
  | value (json : Json)
  | peer (name : String)

/-- How an item is given. -/
inductive Item.Shown : Item → Json → Prop
  | value (json : Json) : Shown (.value json) json
  | peer (name : String) (handle : ℕ) : Shown (.peer name) (Streams.connectionJson handle name)

/-- What a stream is opened over. -/
inductive Feed
  | ready (values : List Json)
  | live (source : Source)
  | listener (peers : List (String × Source))

namespace Feed

/-- Everything a stream has to give. -/
def items : Feed → List Item
  | ready values => values.map .value
  | live source => source.values.map .value
  | listener peers => peers.map fun peer => .peer peer.1

/-- The error a stream ends in. -/
def ending : Feed → Option ErrorValue
  | live source => source.failure
  | _ => none

/-- Opens a stream. -/
def opened (streams : Streams) : Feed → Streams
  | ready values => streams.openInbound values
  | live source => streams.openLive source
  | listener peers => streams.openListener peers

end Feed

namespace Trace

/-- The answers to the calls on a stream. -/
def on (trace : Trace) (handle : ℕ) : List Answer :=
  trace.answers.filter fun answer => answer.params.handle.toNat = handle

/-- What was given of a stream. -/
def given (trace : Trace) (handle : ℕ) : List Json :=
  (trace.on handle).flatMap (·.result.values)

end Trace

/-- Whether a call asked for something and its source had an answer in time. -/
def Answer.served (answer : Answer) : Bool :=
  0 < answer.params.max.toNat && 0 < answer.arrivals

/-- **Nothing of a stream is lost**: what is given is what the source has, in its order, at most so
many at once as were asked for; completion is told once, after everything was given, with the error
the source ends in; it is told in time when the source answers in time; and no call panics. -/
structure PulledWhole (items : List Item) (ending : Option ErrorValue) (handle : ℕ)
    (trace : Trace) : Prop where
  calm : trace.panicked = false
  whole : ∃ front, front <+: items ∧ Forall₂ Item.Shown front (trace.given handle)
  bounded : ∀ answer ∈ trace.answers,
    answer.result.values.length ≤ answer.params.max.toNat
  once : ∀ before answer after, trace.on handle = before ++ answer :: after →
    answer.result.complete = true → after = [] ∧ answer.result.error = ending ∧
      Forall₂ Item.Shown items (trace.given handle)
  quiet : ∀ answer ∈ trace.on handle, answer.result.complete = false → answer.result.error = none
  told : items.length < (trace.on handle).countP Answer.served →
    ∃ answer ∈ trace.on handle, answer.result.complete = true

/-! ### One call -/

section Call

variable {streams : Streams} {stream : Inbound} {items : List Item} {ending : Option ErrorValue}
  {given : List Json} {wanted arrivals handle : ℕ}

/-- What a stream has still to take in. -/
def Inbound.remaining (stream : Inbound) : List Item :=
  match stream.live, stream.accepted with
  | some source, _ => source.values.map .value
  | none, some peers => peers.map fun peer => .peer peer.1
  | none, none => []

/-- A stream of which some values were given: what was given and what is held are what it had to
give, up to what it has still to take in. -/
structure Inbound.Carries (items : List Item) (ending : Option ErrorValue) (given : List Json)
    (stream : Inbound) : Prop where
  shown : ∃ front, items = front ++ stream.remaining ∧
    Forall₂ Item.Shown front (given ++ stream.values)
  ended : stream.complete = true →
    stream.live = none ∧ stream.accepted = none ∧ stream.error = ending
  running : stream.complete = false → stream.error = none ∧
    ((∃ source, stream.live = some source ∧ stream.accepted = none ∧ source.failure = ending) ∨
      ∃ peers, stream.live = none ∧ stream.accepted = some peers ∧ ending = none)

theorem Inbound.Carries.fill (h : stream.Carries items ending given) :
    (stream.fill wanted arrivals).Carries items ending given := by
  induction arrivals generalizing stream with
  | zero => exact h
  | succ arrivals ih =>
    rw [Inbound.fill]
    cases hlive : stream.live with
    | none => exact h
    | some source =>
      have hcomplete : stream.complete = false := by
        by_contra hnot
        have hended := h.ended (by simpa using hnot)
        rw [hlive] at hended
        cases hended.1
      obtain ⟨herror, hfeed⟩ := h.running hcomplete
      obtain ⟨haccepted, hending⟩ : stream.accepted = none ∧ source.failure = ending := by
        rcases hfeed with ⟨found, hfound, haccepted, hending⟩ | ⟨_, hnone, _⟩
        · rw [hlive] at hfound
          cases hfound
          exact ⟨haccepted, hending⟩
        · rw [hlive] at hnone
          cases hnone
      obtain ⟨front, hitems, hshown⟩ := h.shown
      dsimp only
      split_ifs with hroom
      swap
      · exact h
      cases hvalues : source.values with
      | cons value values =>
        refine ih ⟨⟨front ++ [.value value], ?_, ?_⟩, ?_, ?_⟩
        · rw [hitems, append_assoc]
          simp [Inbound.remaining, hlive, hvalues]
        · rw [← append_assoc]
          exact rel_append hshown (.cons (.value value) .nil)
        · intro hnot
          simp [hcomplete] at hnot
        · intro _
          exact ⟨herror, .inl ⟨_, rfl, haccepted, hending⟩⟩
      | nil =>
        have hrest : stream.remaining = [] := by simp [Inbound.remaining, hlive, hvalues]
        rw [hrest] at hitems
        cases hfailure : source.failure with
        | none =>
          refine ⟨⟨front, ?_, hshown⟩, fun _ => ⟨rfl, haccepted, ?_⟩, nofun⟩
          · rw [hitems]
            simp [Inbound.remaining, haccepted]
          · rw [← hending, hfailure]
            exact herror
        | some error =>
          refine ⟨⟨front, ?_, hshown⟩, fun _ => ⟨rfl, haccepted, ?_⟩, nofun⟩
          · rw [hitems]
            simp [Inbound.remaining, haccepted]
          · rw [← hending, hfailure]

theorem Inbound.Carries.accept (h : stream.Carries items ending given) :
    (Streams.accept wanted arrivals streams stream).2.Carries items ending given := by
  induction arrivals generalizing streams stream with
  | zero => exact h
  | succ arrivals ih =>
    rw [Streams.accept]
    cases haccepted : stream.accepted with
    | none => exact h
    | some peers =>
      have hcomplete : stream.complete = false := by
        by_contra hnot
        have hended := h.ended (by simpa using hnot)
        rw [haccepted] at hended
        cases hended.2.1
      obtain ⟨herror, hfeed⟩ := h.running hcomplete
      obtain ⟨hlive, hending⟩ : stream.live = none ∧ ending = none := by
        rcases hfeed with ⟨_, _, hnone, _⟩ | ⟨_, hlive, _, hending⟩
        · rw [haccepted] at hnone
          cases hnone
        · exact ⟨hlive, hending⟩
      obtain ⟨front, hitems, hshown⟩ := h.shown
      dsimp only
      split_ifs with hroom
      swap
      · exact h
      cases peers with
      | cons first peers =>
        refine ih ⟨⟨front ++ [.peer first.1], ?_, ?_⟩, ?_, ?_⟩
        · rw [hitems, append_assoc]
          simp [Inbound.remaining, hlive, haccepted]
        · rw [← append_assoc]
          exact rel_append hshown (.cons (.peer first.1 _) .nil)
        · intro hnot
          simp [hcomplete] at hnot
        · intro _
          exact ⟨herror, .inr ⟨_, hlive, rfl, hending⟩⟩
      | nil =>
        refine ⟨⟨front, ?_, hshown⟩, fun _ => ⟨hlive, rfl, ?_⟩, nofun⟩
        · rw [hitems]
          simp [Inbound.remaining, hlive, haccepted]
        · rw [hending]
          exact herror

/-- The connections a listener opens are new ones. -/
theorem inbound_accept (streams : Streams) (stream : Inbound) (h : handle < streams.nextHandle) :
    (Streams.accept wanted arrivals streams stream).1.inbound handle = streams.inbound handle ∧
      handle < (Streams.accept wanted arrivals streams stream).1.nextHandle := by
  induction arrivals generalizing streams stream with
  | zero => exact ⟨rfl, h⟩
  | succ arrivals ih =>
    rw [Streams.accept]
    cases stream.accepted with
    | none => exact ⟨rfl, h⟩
    | some peers =>
      dsimp only
      split_ifs with hroom
      swap
      · exact ⟨rfl, h⟩
      cases peers with
      | nil => exact ⟨rfl, h⟩
      | cons first peers =>
        obtain ⟨hinbound, hnext⟩ := ih (streams.openConnection first.2) _ (Nat.lt_succ_of_lt h)
        refine ⟨hinbound.trans ?_, hnext⟩
        exact Function.update_of_ne (Nat.ne_of_lt h) _ _

theorem fill_values_ne_nil (h : stream.values ≠ []) :
    (stream.fill wanted arrivals).values ≠ [] := by
  induction arrivals generalizing stream with
  | zero => exact h
  | succ arrivals ih =>
    rw [Inbound.fill]
    cases stream.live with
    | none => exact h
    | some source =>
      dsimp only
      split_ifs
      swap
      · exact h
      cases source.values with
      | cons value values => exact ih (by simp)
      | nil => cases source.failure <;> exact h

theorem accept_values_ne_nil (h : stream.values ≠ []) :
    (Streams.accept wanted arrivals streams stream).2.values ≠ [] := by
  induction arrivals generalizing streams stream with
  | zero => exact h
  | succ arrivals ih =>
    rw [Streams.accept]
    cases stream.accepted with
    | none => exact h
    | some peers =>
      dsimp only
      split_ifs
      swap
      · exact h
      cases peers with
      | nil => exact h
      | cons first peers => exact ih (by simp)

/-- A source that answers in time gives a value or ends. -/
theorem Inbound.Carries.fill_served (h : stream.Carries items ending given)
    (haccepted : stream.accepted = none) (hwanted : 0 < wanted) (harrivals : 0 < arrivals) :
    (stream.fill wanted arrivals).values ≠ [] ∨ (stream.fill wanted arrivals).complete = true := by
  by_cases hvalues : stream.values = []
  swap
  · exact .inl (fill_values_ne_nil hvalues)
  obtain ⟨arrivals, rfl⟩ := Nat.exists_eq_succ_of_ne_zero (Nat.ne_of_gt harrivals)
  rw [Inbound.fill]
  cases hlive : stream.live with
  | none =>
    right
    by_contra hnot
    rcases (h.running (by simpa using hnot)).2 with ⟨_, hsome, _⟩ | ⟨_, _, hsome, _⟩
    · rw [hlive] at hsome
      cases hsome
    · rw [haccepted] at hsome
      cases hsome
  | some source =>
    simp only [hvalues, length_nil, if_pos hwanted]
    cases source.values with
    | cons value values => exact .inl (fill_values_ne_nil (by simp))
    | nil => cases source.failure <;> exact .inr rfl

theorem accept_served {peers : List (String × Source)} (haccepted : stream.accepted = some peers)
    (hwanted : 0 < wanted) (harrivals : 0 < arrivals) :
    (Streams.accept wanted arrivals streams stream).2.values ≠ [] ∨
      (Streams.accept wanted arrivals streams stream).2.complete = true := by
  by_cases hvalues : stream.values = []
  swap
  · exact .inl (accept_values_ne_nil hvalues)
  obtain ⟨arrivals, rfl⟩ := Nat.exists_eq_succ_of_ne_zero (Nat.ne_of_gt harrivals)
  rw [Streams.accept, haccepted]
  simp only [hvalues, length_nil, if_pos hwanted]
  cases peers with
  | nil => exact .inr rfl
  | cons first peers => exact .inl (accept_values_ne_nil (by simp))

theorem Inbound.Carries.takeIn (h : stream.Carries items ending given) :
    (streams.takeIn wanted arrivals stream).2.Carries items ending given := by
  rw [Streams.takeIn]
  split_ifs
  · exact h.accept
  · exact h.fill

theorem inbound_takeIn (stream : Inbound) (h : handle < streams.nextHandle) :
    (streams.takeIn wanted arrivals stream).1.inbound handle = streams.inbound handle ∧
      handle < (streams.takeIn wanted arrivals stream).1.nextHandle := by
  rw [Streams.takeIn]
  split_ifs
  · exact inbound_accept streams stream h
  · exact ⟨rfl, h⟩

theorem Inbound.Carries.takeIn_served (h : stream.Carries items ending given)
    (hwanted : 0 < wanted) (harrivals : 0 < arrivals) :
    (streams.takeIn wanted arrivals stream).2.values ≠ [] ∨
      (streams.takeIn wanted arrivals stream).2.complete = true := by
  rw [Streams.takeIn]
  split_ifs with haccepted
  · obtain ⟨peers, hpeers⟩ := Option.isSome_iff_exists.1 haccepted
    exact accept_served hpeers hwanted harrivals
  · exact h.fill_served (by simpa using haccepted) hwanted harrivals

variable {parseSpan : String → Option ℤ} {malformed : Json → String} {pull : Pull}
  {params : NextParams} {result : NextResult} {streams' : Streams}

/-- **What an answered call did.** -/
theorem exists_of_answered (hparams : NextParams.ofJson pull.params = some params)
    (h : streams.next parseSpan malformed pull = .answered result streams') :
    ∃ stream, streams.inbound params.handle.toNat = some stream ∧
      result.values =
        (streams.takeIn params.max.toNat pull.arrivals stream).2.values.take params.max.toNat ∧
      result.complete = ((streams.takeIn params.max.toNat pull.arrivals stream).2.complete &&
        ((streams.takeIn params.max.toNat pull.arrivals stream).2.values.drop
          params.max.toNat).isEmpty) ∧
      result.error = (if result.complete then
        (streams.takeIn params.max.toNat pull.arrivals stream).2.error else none) ∧
      streams' = { (streams.takeIn params.max.toNat pull.arrivals stream).1 with
        inbound := Function.update
          (streams.takeIn params.max.toNat pull.arrivals stream).1.inbound params.handle.toNat
          (if result.complete then none else
            some { (streams.takeIn params.max.toNat pull.arrivals stream).2 with
              values := (streams.takeIn params.max.toNat pull.arrivals stream).2.values.drop
                params.max.toNat }) } := by
  rw [Streams.next, hparams] at h
  dsimp only at h
  split_ifs at h
  cases hstream : streams.inbound params.handle.toNat with
  | none =>
    rw [hstream] at h
    cases h
  | some stream =>
    rw [hstream] at h
    cases h
    exact ⟨stream, rfl, rfl, rfl, rfl, rfl⟩

theorem inbound_of_answered (hparams : NextParams.ofJson pull.params = some params)
    (h : streams.next parseSpan malformed pull = .answered result streams')
    (hhandle : handle < streams.nextHandle) :
    handle < streams'.nextHandle ∧ (params.handle.toNat ≠ handle →
      streams'.inbound handle = streams.inbound handle) := by
  obtain ⟨stream, -, -, -, -, rfl⟩ := exists_of_answered hparams h
  obtain ⟨hinbound, hnext⟩ := @inbound_takeIn streams params.max.toNat pull.arrivals handle stream
    hhandle
  exact ⟨hnext, fun hne => (Function.update_of_ne hne.symm _ _).trans hinbound⟩

theorem length_of_answered (hparams : NextParams.ofJson pull.params = some params)
    (h : streams.next parseSpan malformed pull = .answered result streams') :
    result.values.length ≤ params.max.toNat := by
  obtain ⟨stream, -, hvalues, -⟩ := exists_of_answered hparams h
  rw [hvalues]
  exact length_take_le _ _

/-- **One call on a stream**: it goes on where the last one ended, and says that the stream is over
when everything was given. -/
theorem Inbound.Carries.answered (hcarries : stream.Carries items ending given)
    (hparams : NextParams.ofJson pull.params = some params)
    (hstream : streams.inbound params.handle.toNat = some stream)
    (h : streams.next parseSpan malformed pull = .answered result streams') :
    (result.complete = false → result.error = none ∧ ∃ stream',
      streams'.inbound params.handle.toNat = some stream' ∧
        stream'.Carries items ending (given ++ result.values)) ∧
      (result.complete = true → streams'.inbound params.handle.toNat = none ∧
        result.error = ending ∧ Forall₂ Item.Shown items (given ++ result.values)) ∧
      (0 < params.max.toNat → 0 < pull.arrivals → result.values ≠ [] ∨ result.complete = true) := by
  obtain ⟨found, hfound, hvalues, hcomplete, herror, rfl⟩ := exists_of_answered hparams h
  obtain rfl : stream = found := Option.some.inj (hstream.symm.trans hfound)
  have htaken : (streams.takeIn params.max.toNat pull.arrivals stream).2.Carries items ending given :=
    hcarries.takeIn
  have hserved := @Inbound.Carries.takeIn_served streams stream items ending given
    params.max.toNat pull.arrivals hcarries
  generalize streams.takeIn params.max.toNat pull.arrivals stream = filled at *
  have hsplit : given ++ filled.2.values =
      given ++ result.values ++ filled.2.values.drop params.max.toNat := by
    rw [hvalues, append_assoc, take_append_drop]
  obtain ⟨front, hitems, hshown⟩ := htaken.shown
  rw [hsplit] at hshown
  refine ⟨fun hgoing => ⟨?_, { filled.2 with
    values := filled.2.values.drop params.max.toNat }, ?_, ?_⟩, fun hover => ⟨?_, ?_, ?_⟩, fun hmax harrivals => ?_⟩
  · rw [herror, hgoing]
    rfl
  · refine (Function.update_self _ _ _).trans ?_
    rw [hgoing]
    rfl
  · exact ⟨⟨front, hitems, hshown⟩, htaken.ended, htaken.running⟩
  · refine (Function.update_self _ _ _).trans ?_
    rw [hover]
    rfl
  · rw [hcomplete, Bool.and_eq_true] at hover
    rw [herror, hcomplete, hover.1, hover.2]
    exact (htaken.ended hover.1).2.2
  · rw [hcomplete, Bool.and_eq_true, List.isEmpty_iff] at hover
    obtain ⟨hlive, haccepted, -⟩ := htaken.ended hover.1
    have hrest : filled.2.remaining = [] := by rw [Inbound.remaining, hlive, haccepted]
    rw [hrest, List.append_nil] at hitems
    rw [hover.2, append_nil] at hshown
    rw [hitems]
    exact hshown
  · rcases hserved hmax harrivals with hne | hended
    · left
      rw [hvalues]
      simpa [take_eq_nil_iff, Nat.ne_of_gt hmax] using hne
    · by_cases hne : filled.2.values = []
      · right
        rw [hcomplete, hended, hne, drop_nil]
        rfl
      · left
        rw [hvalues]
        simpa [take_eq_nil_iff, Nat.ne_of_gt hmax] using hne

end Call

/-! ### All calls -/

section Calls

variable {parseSpan : String → Option ℤ} {malformed : Json → String} {streams : Streams}
  {stream : Inbound} {items : List Item} {ending : Option ErrorValue} {given : List Json}
  {handle : ℕ} {pulls : List Pull}

/-- Whether the deadline of a call is below the limit of a duration, where it has one. -/
def Pull.Timely (pull : Pull) : Prop :=
  ∀ params ∈ NextParams.ofJson pull.params, ∀ deadline ∈ params.deadline, ¬Endless deadline

/-- **Which calls panic**: those whose deadline does, whatever the streams are. -/
theorem next_eq_panicked_iff (streams : Streams) (pull : Pull) :
    streams.next parseSpan malformed pull = .panicked ↔ ¬pull.Timely := by
  rw [Streams.next, Pull.Timely]
  cases NextParams.ofJson pull.params with
  | none => simp
  | some params =>
    cases hdeadline : params.deadline with
    | none => cases hstream : streams.inbound params.handle.toNat <;> simp [hdeadline, hstream]
    | some deadline =>
      have hpanics := @durationOf_eq_panicked_iff parseSpan deadline
      by_cases hendless : Endless deadline
      · simp [hdeadline, hpanics.2 hendless, hendless]
      · cases hstream : streams.inbound params.handle.toNat <;>
          simp [hdeadline, hpanics, hendless, hstream]

/-- What the answers on a stream come to, after what was given before. -/
structure GoesOn (items : List Item) (ending : Option ErrorValue) (given : List Json)
    (answers : List Answer) : Prop where
  whole : ∃ front, front <+: items ∧
    Forall₂ Item.Shown front (given ++ answers.flatMap (·.result.values))
  once : ∀ before answer after, answers = before ++ answer :: after →
    answer.result.complete = true → after = [] ∧ answer.result.error = ending ∧
      Forall₂ Item.Shown items (given ++ answers.flatMap (·.result.values))
  quiet : ∀ answer ∈ answers, answer.result.complete = false → answer.result.error = none
  told : items.length < given.length + answers.countP Answer.served →
    ∃ answer ∈ answers, answer.result.complete = true

theorem Inbound.Carries.goesOn_nil (h : stream.Carries items ending given) :
    GoesOn items ending given [] where
  whole := by
    obtain ⟨front, hitems, hshown⟩ := h.shown
    have hlength : given.length ≤ front.length := by
      rw [hshown.length_eq, length_append]
      exact Nat.le_add_right _ _
    refine ⟨front.take given.length, ?_, ?_⟩
    · exact (List.take_prefix _ _).trans (hitems ▸ prefix_append _ _)
    · have htaken := forall₂_take given.length hshown
      rw [take_left] at htaken
      simpa using htaken
  once before answer after h := by simp at h
  quiet := forall_mem_nil _
  told hcount := by
    obtain ⟨front, hitems, hshown⟩ := h.shown
    have hlength := hshown.length_eq
    rw [length_append] at hlength
    rw [hitems, length_append, countP_nil] at hcount
    omega

/-- An answer that goes on, in front of what goes on after it. -/
theorem GoesOn.cons {answer : Answer} {answers : List Answer}
    (hgoing : answer.result.complete = false) (herror : answer.result.error = none)
    (hserved : answer.served = true → answer.result.values ≠ [])
    (h : GoesOn items ending (given ++ answer.result.values) answers) :
    GoesOn items ending given (answer :: answers) := by
  have hvalues : given ++ (answer :: answers).flatMap (·.result.values) =
      given ++ answer.result.values ++ answers.flatMap (·.result.values) := by
    rw [flatMap_cons, append_assoc]
  refine ⟨?_, ?_, ?_, ?_⟩
  · rw [hvalues]
    exact h.whole
  · intro before last after heq hcomplete
    cases before with
    | nil =>
      obtain ⟨rfl, rfl⟩ := cons.inj heq
      rw [hgoing] at hcomplete
      cases hcomplete
    | cons first before =>
      rw [hvalues]
      exact h.once before last after (cons.inj heq).2 hcomplete
  · exact forall_mem_cons.2 ⟨fun _ => herror, h.quiet⟩
  · intro hcount
    have hone : answers.countP Answer.served + (if answer.served then 1 else 0) =
        (answer :: answers).countP Answer.served := (countP_cons ..).symm
    have hgiven : (if answer.served = true then 1 else 0) ≤ answer.result.values.length := by
      split_ifs with hanswer
      · exact length_pos_of_ne_nil (hserved hanswer)
      · exact Nat.zero_le _
    obtain ⟨last, hmem, hcomplete⟩ := h.told (by rw [length_append]; omega)
    exact ⟨last, mem_cons_of_mem _ hmem, hcomplete⟩

/-- An answer that says the stream is over, and everything was given. -/
theorem GoesOn.last {answer : Answer} (hover : answer.result.complete = true)
    (herror : answer.result.error = ending)
    (hshown : Forall₂ Item.Shown items (given ++ answer.result.values)) :
    GoesOn items ending given [answer] := by
  have hvalues : given ++ [answer].flatMap (·.result.values) = given ++ answer.result.values := by
    simp
  refine ⟨⟨items, prefix_rfl, hvalues ▸ hshown⟩, ?_, ?_, ?_⟩
  · intro before last after heq _
    cases before with
    | nil =>
      obtain ⟨rfl, rfl⟩ := cons.inj heq
      exact ⟨rfl, herror, hvalues ▸ hshown⟩
    | cons first before => simp at heq
  · intro last hmem hgoing
    obtain rfl := mem_singleton.1 hmem
    rw [hover] at hgoing
    cases hgoing
  · exact fun _ => ⟨answer, mem_singleton_self _, hover⟩

/-- A stream that is gone is not answered for any more. -/
theorem on_of_gone (hhandle : handle < streams.nextHandle) (hgone : streams.inbound handle = none) :
    (streams.pullAll parseSpan malformed pulls).on handle = [] := by
  induction pulls generalizing streams with
  | nil => rfl
  | cons pull pulls ih =>
    rw [Streams.pullAll]
    cases hparams : NextParams.ofJson pull.params with
    | none => cases streams.next parseSpan malformed pull <;> rfl
    | some params =>
      cases hnext : streams.next parseSpan malformed pull with
      | panicked => rfl
      | violated error => rfl
      | answered result streams' =>
        obtain ⟨hhandle', hother⟩ := inbound_of_answered hparams hnext hhandle
        have hne : params.handle.toNat ≠ handle := by
          rintro rfl
          obtain ⟨stream, hstream, -⟩ := exists_of_answered hparams hnext
          rw [hgone] at hstream
          cases hstream
        have hrest := ih hhandle' ((hother hne).trans hgone)
        simpa [Trace.on, hne] using hrest

/-- **Calls go on where a stream stands.** -/
theorem goesOn_of_carries (hhandle : handle < streams.nextHandle)
    (hstream : streams.inbound handle = some stream) (h : stream.Carries items ending given) :
    GoesOn items ending given ((streams.pullAll parseSpan malformed pulls).on handle) := by
  induction pulls generalizing streams stream given with
  | nil => exact h.goesOn_nil
  | cons pull pulls ih =>
    rw [Streams.pullAll]
    cases hparams : NextParams.ofJson pull.params with
    | none => cases streams.next parseSpan malformed pull <;> exact h.goesOn_nil
    | some params =>
      cases hnext : streams.next parseSpan malformed pull with
      | panicked => exact h.goesOn_nil
      | violated error => exact h.goesOn_nil
      | answered result streams' =>
        obtain ⟨hhandle', hother⟩ := inbound_of_answered hparams hnext hhandle
        by_cases hsame : params.handle.toNat = handle
        swap
        · have hrest := ih hhandle' ((hother hsame).trans hstream) h
          simpa [Trace.on, hsame] using hrest
        subst hsame
        obtain ⟨hgoing, hover, hserved⟩ := h.answered hparams hstream hnext
        have hon : Trace.on ⟨⟨params, pull.arrivals, result⟩ ::
            (streams'.pullAll parseSpan malformed pulls).answers,
            (streams'.pullAll parseSpan malformed pulls).panicked⟩ params.handle.toNat =
              ⟨params, pull.arrivals, result⟩ ::
                (streams'.pullAll parseSpan malformed pulls).on params.handle.toNat := by
          simp [Trace.on]
        rw [hon]
        cases hcomplete : result.complete with
        | false =>
          obtain ⟨herror, stream', hstream', hcarries⟩ := hgoing hcomplete
          refine GoesOn.cons hcomplete herror (fun hanswer => ?_) (ih hhandle' hstream' hcarries)
          simp only [Answer.served, Bool.and_eq_true, decide_eq_true_eq] at hanswer
          exact (hserved hanswer.1 hanswer.2).resolve_right (by simp [hcomplete])
        | true =>
          obtain ⟨hgone, herror, hshown⟩ := hover hcomplete
          rw [on_of_gone hhandle' hgone]
          exact GoesOn.last hcomplete herror hshown

theorem bounded_pullAll : ∀ answer ∈ (streams.pullAll parseSpan malformed pulls).answers,
    answer.result.values.length ≤ answer.params.max.toNat := by
  induction pulls generalizing streams with
  | nil => exact forall_mem_nil _
  | cons pull pulls ih =>
    rw [Streams.pullAll]
    cases hparams : NextParams.ofJson pull.params with
    | none => cases streams.next parseSpan malformed pull <;> exact forall_mem_nil _
    | some params =>
      cases hnext : streams.next parseSpan malformed pull with
      | panicked => exact forall_mem_nil _
      | violated error => exact forall_mem_nil _
      | answered result streams' =>
        exact forall_mem_cons.2 ⟨length_of_answered hparams hnext, ih⟩

theorem calm_pullAll (h : ∀ pull ∈ pulls, pull.Timely) :
    (streams.pullAll parseSpan malformed pulls).panicked = false := by
  induction pulls generalizing streams with
  | nil => rfl
  | cons pull pulls ih =>
    obtain ⟨hpull, hpulls⟩ := forall_mem_cons.1 h
    rw [Streams.pullAll]
    cases hnext : streams.next parseSpan malformed pull with
    | panicked => exact absurd hpull ((next_eq_panicked_iff streams pull).1 hnext)
    | violated error => cases NextParams.ofJson pull.params <;> rfl
    | answered result streams' =>
      cases NextParams.ofJson pull.params with
      | none => rfl
      | some params => exact ih hpulls

/-- A stream as it is opened. -/
theorem Feed.exists_carries (feed : Feed) (streams : Streams) :
    streams.nextHandle < (feed.opened streams).nextHandle ∧
      ∃ stream, (feed.opened streams).inbound streams.nextHandle = some stream ∧
        stream.Carries feed.items feed.ending [] := by
  have hshown (values : List Json) :
      Forall₂ Item.Shown (values.map .value) ([] ++ values) := by
    rw [nil_append, forall₂_map_left_iff, forall₂_same]
    exact fun json _ => .value json
  cases feed with
  | ready values =>
    refine ⟨Nat.lt_succ_self _, _, Function.update_self _ _ _, ⟨_, ?_, hshown values⟩, ?_, nofun⟩
    · simp [Feed.items, Inbound.remaining]
    · exact fun _ => ⟨rfl, rfl, rfl⟩
  | live source =>
    refine ⟨Nat.lt_succ_self _, _, Function.update_self _ _ _, ⟨[], ?_, .nil⟩, nofun, ?_⟩
    · simp [Feed.items, Inbound.remaining]
    · exact fun _ => ⟨rfl, .inl ⟨source, rfl, rfl, rfl⟩⟩
  | listener peers =>
    refine ⟨Nat.lt_succ_self _, _, Function.update_self _ _ _, ⟨[], ?_, .nil⟩, nofun, ?_⟩
    · simp [Feed.items, Inbound.remaining]
    · exact fun _ => ⟨rfl, .inr ⟨peers, rfl, rfl, rfl⟩⟩

/-- **Nothing of a stream is lost** by any sequence of calls, as long as no deadline names 2^64
seconds or more. -/
theorem pulledWhole_of_timely (parseSpan : String → Option ℤ) (malformed : Json → String)
    (streams : Streams) (feed : Feed) (pulls : List Pull)
    (h : ∀ pull ∈ pulls, pull.Timely) :
    PulledWhole feed.items feed.ending streams.nextHandle
      ((feed.opened streams).pullAll parseSpan malformed pulls) := by
  obtain ⟨hhandle, stream, hstream, hcarries⟩ := feed.exists_carries streams
  have hgoes : GoesOn feed.items feed.ending [] _ :=
    @goesOn_of_carries parseSpan malformed _ _ _ _ _ _ pulls hhandle hstream hcarries
  refine ⟨calm_pullAll h, hgoes.whole, bounded_pullAll, hgoes.once, hgoes.quiet, fun hcount => ?_⟩
  exact hgoes.told (by simpa using hcount)

end Calls

/-- A call on the first stream, with a deadline of so many seconds. -/
def pullWithin (seconds : UInt64) : Pull where
  params := .object [("handle", .number (.posInt 0)), ("max", .number (.posInt 2)),
    ("deadline", .number (.posInt seconds))]
  arrivals := 2

theorem pulledWhole_twice :
    PulledWhole (Feed.live ⟨[.null], none⟩).items (Feed.live ⟨[.null], none⟩).ending 0
      (((Feed.live ⟨[.null], none⟩).opened ⟨fun _ => none, 0⟩).pullAll (fun _ => none) (fun _ => "")
        [pullWithin 1, pullWithin 1]) := by
  refine pulledWhole_of_timely _ _ ⟨fun _ => none, 0⟩ _ _ fun pull hpull => ?_
  obtain rfl : pull = pullWithin 1 := by simpa using hpull
  rintro params ⟨⟩ deadline ⟨⟩
  rw [← @durationOf_eq_panicked_iff fun _ => none]
  decide +kernel

theorem not_pulledWhole_endless :
    ¬∀ (parseSpan : String → Option ℤ) (malformed : Json → String) (streams : Streams) (feed : Feed)
      (pulls : List Pull), PulledWhole feed.items feed.ending streams.nextHandle
        ((feed.opened streams).pullAll parseSpan malformed pulls) := by
  intro h
  have hcalm := (h (fun _ => none) (fun _ => "") ⟨fun _ => none, 0⟩ (.live ⟨[.null], none⟩)
    [pullWithin 18446744073709551615]).calm
  revert hcalm
  decide +kernel

end OnoSendai.Kuang
