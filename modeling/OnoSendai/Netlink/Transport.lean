import OnoSendai.Value

/-!
# Requests on a netlink socket

A dump sends a request and reads datagrams until one ends it; a request that changes something
reads until it is acknowledged (`ono_provider_netlink::transport`). Neither looks at the sequence
number of what it reads, and a socket is used further after a call that failed. The buffer of a
datagram is the list of frames it is walked as, and the kernel is the schedule of its answers.
-/

namespace OnoSendai.Netlink

open List

/-! ### Datagrams -/

/-- One message: its type, the sequence number of the request it answers, and its payload. -/
structure Message where
  kind : UInt16
  sequence : UInt32
  payload : List UInt8

/-- One step of a walk over a buffer; a buffer that ends inside a message ends the walk. -/
inductive Frame
  | message (message : Message)
  | malformed (remaining : List UInt8)

/-- The buffer of one receive, as it is walked. -/
abbrev Datagram : Type :=
  List Frame

/-- The type of a message that carries an error number. -/
def nlmsgError : UInt16 :=
  2

/-- The type of the message that ends a dump. -/
def nlmsgDone : UInt16 :=
  3

/-- The size of the header of a message. -/
def nlmsgHeader : Nat :=
  16

/-- The bytes a provider accepts of one dump. -/
def maximumDump : Nat :=
  64 * 1024 * 1024

/-- The native-endian integer at the start of a payload. -/
def i32At : List UInt8 → Option Int
  | a :: b :: c :: d :: _ =>
    some (d.toBitVec ++ c.toBitVec ++ b.toBitVec ++ a.toBitVec).toInt
  | _ => none

/-- The error number a message carries. -/
def Message.errno (message : Message) : Int :=
  (i32At message.payload).getD 0

/-- Whether a message ends the answer to a request. -/
def Message.isLast (message : Message) : Bool :=
  message.kind == nlmsgDone || message.kind == nlmsgError

/-- The bytes of a frame; a message is followed by its padding. -/
def Frame.size : Frame → Nat
  | .message m => (nlmsgHeader + m.payload.length + 3) / 4 * 4
  | .malformed remaining => remaining.length

/-- The bytes of a buffer. -/
def size (frames : List Frame) : Nat :=
  (frames.map Frame.size).sum

/-! ### Refusals -/

/-- A provider cannot be used. -/
def unavailable (message : String) : ErrorValue where
  code := .other "provider.unavailable"
  message := message

/-- The refusal of the kernel, under the name of its number. -/
def errnoError (strerror : Int → String) (errno : Int) : ErrorValue where
  code := .other (
    if errno = 1 ∨ errno = 13 then "io.permission_denied"
    else if errno = 2 ∨ errno = 3 ∨ errno = 19 then "io.not_found"
    else if errno = 17 then "io.already_exists"
    else "provider.unavailable")
  message := "the kernel refused the netlink request: " ++ strerror errno

/-! ### The calls -/

section Calls

variable (family : String) (strerror : Int → String)

/-- Whether a datagram ends the dump, or the refusal it carries. -/
def scan : Datagram → Except ErrorValue Bool
  | [] => .ok false
  | .malformed _ :: _ => .ok true
  | .message message :: rest =>
    if message.kind = nlmsgDone then .ok true
    else if message.kind = nlmsgError then
      if message.errno = 0 then .ok true else .error (errnoError strerror (-message.errno))
    else scan rest

/-- Collects the datagrams that arrive in time, until one ends the dump; and what is left. -/
def collect (collected : List Frame) :
    List Datagram → Except ErrorValue (List Frame) × List Datagram
  | [] => (.error (unavailable (family ++ " did not answer within 2s")), [])
  | datagram :: rest =>
    if datagram.isEmpty then (.ok collected, rest)
    else
      match scan strerror datagram with
      | .error refusal => (.error refusal, rest)
      | .ok finished =>
        if maximumDump < size collected + size datagram then
          (.error (unavailable ("the " ++ family ++ " reply passed the " ++ toString maximumDump ++
            "-byte limit this provider accepts")), rest)
        else if finished then (.ok (collected ++ datagram), rest)
        else collect (collected ++ datagram) rest

/-- The message that carries an error number, of the datagrams that arrive in time; and what is
left. -/
def acknowledgement : List Datagram → Except ErrorValue Message × List Datagram
  | [] => (.error (unavailable (family ++ " did not acknowledge the request")), [])
  | datagram :: rest =>
    if datagram.isEmpty then
      (.error (unavailable (family ++ " closed before acknowledging the request")), rest)
    else
      match datagram.findSome? fun
        | .message message => if message.kind = nlmsgError then some message else none
        | .malformed _ => none with
      | some message =>
        if message.errno = 0 then (.ok message, rest)
        else (.error (errnoError strerror (-message.errno)), rest)
      | none => acknowledgement rest

/-- A socket: the datagrams the kernel has delivered or will still deliver, and nobody has read. -/
structure NetlinkSocket where
  unread : List Datagram

/-- Sends a dump request that the kernel answers, of which some datagrams arrive in time, and
returns what was read. -/
def NetlinkSocket.dump (socket : NetlinkSocket) (answer : List Datagram) (inTime : Nat) :
    Except ErrorValue (List Frame) × NetlinkSocket :=
  let unread := socket.unread ++ answer
  let found := collect family strerror [] (unread.take inTime)
  (found.1, ⟨found.2 ++ unread.drop inTime⟩)

/-- Sends a request that changes something, and waits for a message that acknowledges it. -/
def NetlinkSocket.request (socket : NetlinkSocket) (answer : List Datagram) (inTime : Nat) :
    Except ErrorValue Message × NetlinkSocket :=
  let unread := socket.unread ++ answer
  let found := acknowledgement family strerror (unread.take inTime)
  (found.1, ⟨found.2 ++ unread.drop inTime⟩)

/-! ### Sequences of calls -/

/-- Which function of the socket is called. -/
inductive CallKind
  | dump
  | request

/-- A call, with the answer of the kernel to it: datagrams of messages that carry the sequence
number of the call, the last of which ends the answer. How many datagrams arrive before the
receive times out is up to the kernel as well. -/
structure Call where
  kind : CallKind
  sequence : UInt32
  answer : List Datagram
  inTime : Nat
  own : ∀ message, .message message ∈ answer.flatten → message.sequence = sequence
  last : ∀ before message after, answer.flatten = before ++ .message message :: after →
    message.isLast = true → after = []
  nonempty : ∀ datagram ∈ answer, datagram ≠ []

/-- What a call returns. -/
inductive Outcome
  | dumped (result : Except ErrorValue (List Frame))
  | acknowledged (result : Except ErrorValue Message)

/-- A call on a socket. -/
def NetlinkSocket.perform (socket : NetlinkSocket) (call : Call) : Outcome × NetlinkSocket :=
  match call.kind with
  | .dump =>
    let called := socket.dump family strerror call.answer call.inTime
    (.dumped called.1, called.2)
  | .request =>
    let called := socket.request family strerror call.answer call.inTime
    (.acknowledged called.1, called.2)

/-- A call returned nothing but what answers it: of a dump all of it unless a malformed message
shows that some is missing, of a request the acknowledgement. -/
def OwnAnswer (call : Call) : Outcome → Prop
  | .dumped (.ok frames) =>
    (∀ message, .message message ∈ frames → message.sequence = call.sequence) ∧
      ((∃ remaining, .malformed remaining ∈ frames) ∨ frames = call.answer.flatten)
  | .acknowledged (.ok message) => message.sequence = call.sequence
  | _ => True

/-- Every call of a sequence returns nothing but what answers it. -/
def OwnAnswers (socket : NetlinkSocket) : List Call → Prop
  | [] => True
  | call :: calls =>
    OwnAnswer call (socket.perform family strerror call).1 ∧
      OwnAnswers (socket.perform family strerror call).2 calls

/-- Every call of a sequence finds nothing that was left unread. -/
def ReadOut (socket : NetlinkSocket) : List Call → Prop
  | [] => True
  | call :: calls =>
    socket.unread = [] ∧ ReadOut (socket.perform family strerror call).2 calls

variable {family strerror}

/-! ### One call -/

/-- A datagram that ends a dump holds a malformed message, or the last one. -/
theorem exists_of_scan_eq_true {datagram : Datagram} (h : scan strerror datagram = .ok true) :
    (∃ remaining, .malformed remaining ∈ datagram) ∨
      ∃ message, .message message ∈ datagram ∧ message.isLast = true := by
  induction datagram with
  | nil => cases h
  | cons frame datagram ih =>
    cases frame with
    | malformed remaining => exact .inl ⟨remaining, mem_cons_self⟩
    | message message =>
      by_cases hlast : message.isLast = true
      · exact .inr ⟨message, mem_cons_self, hlast⟩
      · have hkind : ¬ message.kind = nlmsgDone ∧ ¬ message.kind = nlmsgError := by
          simpa [Message.isLast] using hlast
        rw [scan, if_neg hkind.1, if_neg hkind.2] at h
        rcases ih h with ⟨remaining, hmem⟩ | ⟨other, hmem, hother⟩
        · exact .inl ⟨remaining, mem_cons_of_mem _ hmem⟩
        · exact .inr ⟨other, mem_cons_of_mem _ hmem, hother⟩

variable {datagrams rest : List Datagram}

/-- What a dump collects are the datagrams it read, the last of which ended it. -/
theorem collect_eq_ok {collected frames : List Frame}
    (hnonempty : ∀ datagram ∈ datagrams, datagram ≠ [])
    (h : collect family strerror collected datagrams = (.ok frames, rest)) :
    ∃ read datagram, datagrams = read ++ datagram :: rest ∧
      frames = collected ++ read.flatten ++ datagram ∧ scan strerror datagram = .ok true := by
  induction datagrams generalizing collected with
  | nil => cases h
  | cons datagram datagrams ih =>
    have hdatagram : datagram.isEmpty = false := by
      simpa using hnonempty datagram mem_cons_self
    rw [collect, hdatagram, if_neg Bool.false_ne_true] at h
    cases hscan : scan strerror datagram with
    | error refusal =>
      rw [hscan] at h
      cases h
    | ok finished =>
      simp only [hscan] at h
      split_ifs at h with hsize hfinished
      · cases h
      · cases h
        subst hfinished
        exact ⟨[], datagram, rfl, by simp, hscan⟩
      · obtain ⟨read, last, hdatagrams, hframes, hlast⟩ :=
          ih (fun other hother => hnonempty other (mem_cons_of_mem _ hother)) h
        exact ⟨datagram :: read, last, by rw [hdatagrams, cons_append],
          by simp [hframes], hlast⟩

/-- What acknowledges a request was read. -/
theorem mem_of_acknowledgement {message : Message}
    (h : acknowledgement family strerror datagrams = (.ok message, rest)) :
    .message message ∈ datagrams.flatten := by
  induction datagrams with
  | nil => cases h
  | cons datagram datagrams ih =>
    rw [acknowledgement] at h
    split_ifs at h with hempty
    · cases h
    split at h
    · rename_i found hfound
      split_ifs at h
      swap
      · cases h
      obtain ⟨frame, hframe, hmessage⟩ := exists_of_findSome?_eq_some hfound
      cases frame with
      | malformed _ => cases hmessage
      | message other =>
        simp only [Option.ite_none_right_eq_some, Option.some.injEq] at hmessage
        obtain ⟨-, rfl⟩ := hmessage
        obtain rfl : other = message := by
          simpa using congrArg Prod.fst h
        simp [hframe]
    · simp [ih h]

/-- A dump of an unread answer returns the start of it, all of it unless a message is malformed. -/
theorem collect_answer {call : Call} {frames : List Frame} {rest : List Datagram}
    (h : collect family strerror [] (call.answer.take call.inTime) = (.ok frames, rest)) :
    frames ++ (rest ++ call.answer.drop call.inTime).flatten = call.answer.flatten ∧
      ((∃ remaining, .malformed remaining ∈ frames) ∨
        rest ++ call.answer.drop call.inTime = []) := by
  obtain ⟨read, datagram, hread, hframes, hscan⟩ := collect_eq_ok
    (fun datagram hdatagram => call.nonempty datagram (mem_of_mem_take hdatagram)) h
  rw [nil_append] at hframes
  have hanswer : call.answer = read ++ datagram :: (rest ++ call.answer.drop call.inTime) := by
    conv_lhs => rw [← take_append_drop call.inTime call.answer, hread]
    simp
  generalize rest ++ call.answer.drop call.inTime = left at hanswer ⊢
  refine ⟨by rw [hframes, hanswer]; simp, ?_⟩
  rcases exists_of_scan_eq_true hscan with ⟨remaining, hmem⟩ | ⟨message, hmem, hlast⟩
  · exact .inl ⟨remaining, by rw [hframes]; exact mem_append_right _ hmem⟩
  · obtain ⟨before, after, rfl⟩ := append_of_mem hmem
    have hnothing := call.last (read.flatten ++ before) message (after ++ left.flatten)
      (by rw [hanswer]; simp) hlast
    rw [append_eq_nil_iff, flatten_eq_nil_iff] at hnothing
    refine .inr (eq_nil_iff_forall_not_mem.2 fun datagram hdatagram => ?_)
    exact call.nonempty datagram (by rw [hanswer]; simp [hdatagram]) (hnothing.2 datagram hdatagram)

/-- **A call that finds nothing unread returns nothing but what answers it.** -/
theorem ownAnswer_of_unread_nil {socket : NetlinkSocket} (call : Call)
    (h : socket.unread = []) : OwnAnswer call (socket.perform family strerror call).1 := by
  unfold NetlinkSocket.perform NetlinkSocket.dump NetlinkSocket.request
  rw [h, nil_append]
  cases call.kind with
  | dump =>
    dsimp only
    cases hcollect : collect family strerror [] (call.answer.take call.inTime) with
    | mk result rest =>
      cases result with
      | error _ => trivial
      | ok frames =>
        obtain ⟨hflatten, hwhole⟩ := collect_answer hcollect
        refine ⟨fun message hmessage => call.own message ?_, hwhole.imp_right fun hnil => ?_⟩
        · rw [← hflatten]
          exact mem_append_left _ hmessage
        · rw [← hflatten, hnil, flatten_nil, append_nil]
  | request =>
    dsimp only
    cases hack : acknowledgement family strerror (call.answer.take call.inTime) with
    | mk result rest =>
      cases result with
      | error _ => trivial
      | ok message =>
        refine call.own message ?_
        rw [← take_append_drop call.inTime call.answer, flatten_append]
        exact mem_append_left _ (mem_of_acknowledgement hack)

/-- **A dump that ended well leaves nothing unread.** -/
theorem unread_perform {socket : NetlinkSocket} {call : Call} {frames : List Frame}
    (h : socket.unread = [])
    (hdump : (socket.perform family strerror call).1 = .dumped (.ok frames))
    (hwhole : ∀ remaining, .malformed remaining ∉ frames) :
    (socket.perform family strerror call).2.unread = [] := by
  unfold NetlinkSocket.perform NetlinkSocket.dump NetlinkSocket.request at hdump ⊢
  rw [h, nil_append] at hdump ⊢
  cases hkind : call.kind with
  | dump =>
    rw [hkind] at hdump
    dsimp only at hdump ⊢
    cases hcollect : collect family strerror [] (call.answer.take call.inTime) with
    | mk result rest =>
      rw [hcollect] at hdump
      cases hdump
      exact (collect_answer hcollect).2.resolve_left fun ⟨remaining, hmem⟩ => hwhole remaining hmem
  | request =>
    rw [hkind] at hdump
    cases hdump

/-- **When every call returns its own answer.** -/
theorem ownAnswers_of_readOut {socket : NetlinkSocket} {calls : List Call}
    (h : ReadOut family strerror socket calls) : OwnAnswers family strerror socket calls := by
  induction calls generalizing socket with
  | nil => trivial
  | cons call calls ih => exact ⟨ownAnswer_of_unread_nil call h.1, ih h.2⟩

/-- Whether a call was a dump that came back whole. -/
def CameWhole : Outcome → Prop
  | .dumped (.ok frames) => ∀ remaining, .malformed remaining ∉ frames
  | _ => False

/-- Every call of a sequence but the last is a dump that comes back whole. -/
def WholeDumps (family : String) (strerror : Int → String) (socket : NetlinkSocket) :
    List Call → Prop
  | call :: next :: calls => CameWhole (socket.perform family strerror call).1 ∧
      WholeDumps family strerror (socket.perform family strerror call).2 (next :: calls)
  | _ => True

/-- **Dumps that come back whole keep the socket in step.** -/
theorem ownAnswers_of_wholeDumps {socket : NetlinkSocket} {calls : List Call}
    (hunread : socket.unread = []) (h : WholeDumps family strerror socket calls) :
    OwnAnswers family strerror socket calls := by
  induction calls generalizing socket with
  | nil => trivial
  | cons call calls ih =>
    refine ⟨ownAnswer_of_unread_nil call hunread, ?_⟩
    cases calls with
    | nil => trivial
    | cons next calls =>
      refine ih ?_ h.2
      have hcall := h.1
      cases hresult : (socket.perform family strerror call).1 with
      | acknowledged result => exact (hresult ▸ hcall).elim
      | dumped result =>
        rw [hresult] at hcall
        cases result with
        | error failure => exact hcall.elim
        | ok frames => exact unread_perform hunread hresult hcall

end Calls

/-! ### A late answer -/

/-- A dump of the routes of an address family, which the kernel answers with one route. -/
def routesOf (family : UInt8) (sequence : UInt32) (inTime : Nat) : Call where
  kind := .dump
  sequence := sequence
  answer := [[.message ⟨24, sequence, [family]⟩], [.message ⟨nlmsgDone, sequence, []⟩]]
  inTime := inTime
  own := by
    intro message hmessage
    simp only [flatten_cons, flatten_nil, append_nil, cons_append,
      nil_append, mem_cons, Frame.message.injEq, not_mem_nil, or_false] at hmessage
    rcases hmessage with rfl | rfl <;> rfl
  last := by
    intro before message after hanswer hlast
    match before, hanswer with
    | [], hanswer =>
      simp only [flatten_cons, flatten_nil, append_nil, cons_append,
        nil_append, cons.injEq, Frame.message.injEq] at hanswer
      rw [← hanswer.1] at hlast
      cases hlast
    | [_], hanswer =>
      simp only [flatten_cons, flatten_nil, append_nil, cons_append,
        nil_append, cons.injEq] at hanswer
      exact hanswer.2.2.symm
    | _ :: _ :: _, hanswer => simp at hanswer
  nonempty := by simp

theorem not_ownAnswers :
    ¬ ∀ (family : String) (strerror : Int → String) (calls : List Call),
      OwnAnswers family strerror ⟨[]⟩ calls := by
  intro h
  have hrun := h "NETLINK_ROUTE" toString [routesOf 2 1 0, routesOf 10 2 2]
  have hsequence : (1 : UInt32) = 2 := hrun.2.1.1 ⟨24, 1, [2]⟩ mem_cons_self
  exact absurd hsequence (by decide)

theorem ownAnswers_inTime :
    OwnAnswers "NETLINK_ROUTE" toString ⟨[]⟩ [routesOf 2 1 2, routesOf 10 2 2] :=
  ownAnswers_of_readOut ⟨rfl, rfl, trivial⟩

theorem ownAnswers_wholeDump :
    OwnAnswers "NETLINK_ROUTE" toString ⟨[]⟩ [routesOf 2 1 2, routesOf 10 2 0] :=
  ownAnswers_of_wholeDumps rfl ⟨fun _ hmem => by simp at hmem, trivial⟩

end OnoSendai.Netlink
