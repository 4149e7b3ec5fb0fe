import OnoSendai.Link.Wire

/-!
# Framing

A frame is a header of twelve bytes and a payload. A reader takes frames out of a buffer that it
fills from a transport, which may divide the stream of bytes into reads as it likes.

A read of no bytes is the end of the stream, so the reads of a transport are not empty.
-/

namespace OnoSendai.Link

open List

/-! ### Frames -/

/-- The framing version this build speaks. -/
def frameVersion : UInt8 :=
  1

/-- What a frame carries. -/
inductive FrameKind
  | hello
  | accept
  | reject
  | startQuery
  | startSubscribe
  | act
  | cancel
  | credit
  | value
  | event
  | failure
  | outcome
  | finish
  | startAdapt

namespace FrameKind

/-- Every kind, in the order of the numbers. -/
def all : List FrameKind :=
  [hello, accept, reject, startQuery, startSubscribe, act, cancel, credit, value, event, failure,
    outcome, finish, startAdapt]

/-- The number of a kind. -/
def asU8 : FrameKind → UInt8
  | hello => 1
  | accept => 2
  | reject => 3
  | startQuery => 4
  | startSubscribe => 5
  | act => 6
  | cancel => 7
  | credit => 8
  | value => 9
  | event => 10
  | failure => 11
  | outcome => 12
  | finish => 13
  | startAdapt => 14

/-- The kind of a number. -/
def fromU8 (byte : UInt8) : Option FrameKind :=
  all.find? fun kind => kind.asU8 = byte

@[simp]
theorem fromU8_asU8 (kind : FrameKind) : fromU8 kind.asU8 = some kind := by
  cases kind <;> rfl

theorem asU8_of_fromU8 {byte : UInt8} {kind : FrameKind} (h : fromU8 byte = some kind) :
    kind.asU8 = byte := by
  simpa using find?_some h

end FrameKind

/-- One framed message. -/
structure WireFrame where
  kind : FrameKind
  stream : UInt32
  payload : List UInt8

/-! ### Numbers -/

/-- The bytes of a number, the highest first. -/
def beBytes (number : UInt32) : List UInt8 :=
  [UInt8.ofNat (number.toNat / 2 ^ 24), UInt8.ofNat (number.toNat / 2 ^ 16),
    UInt8.ofNat (number.toNat / 2 ^ 8), UInt8.ofNat number.toNat]

/-- The number of four bytes, the highest first. -/
def fromBeBytes (a b c d : UInt8) : UInt32 :=
  UInt32.ofNat (a.toNat * 2 ^ 24 + b.toNat * 2 ^ 16 + c.toNat * 2 ^ 8 + d.toNat)

theorem beBytes_fromBeBytes (a b c d : UInt8) : beBytes (fromBeBytes a b c d) = [a, b, c, d] := by
  have ha := a.toNat_lt
  have hb := b.toNat_lt
  have hc := c.toNat_lt
  have hd := d.toNat_lt
  have hsum : (fromBeBytes a b c d).toNat =
      a.toNat * 2 ^ 24 + b.toNat * 2 ^ 16 + c.toNat * 2 ^ 8 + d.toNat := by
    rw [fromBeBytes, UInt32.toNat_ofNat']
    omega
  simp only [beBytes, hsum, cons.injEq, and_true]
  refine ⟨?_, ?_, ?_, ?_⟩
  all_goals
    rw [← UInt8.toNat_inj, UInt8.toNat_ofNat']
    omega

theorem toNat_fromBeBytes_ofNat {number : Nat} (h : number < 2 ^ 32) :
    (fromBeBytes (UInt8.ofNat (number / 2 ^ 24)) (UInt8.ofNat (number / 2 ^ 16))
      (UInt8.ofNat (number / 2 ^ 8)) (UInt8.ofNat number)).toNat = number := by
  simp only [fromBeBytes, UInt32.toNat_ofNat', UInt8.toNat_ofNat']
  omega

theorem fromBeBytes_ofNat (number : UInt32) :
    fromBeBytes (UInt8.ofNat (number.toNat / 2 ^ 24)) (UInt8.ofNat (number.toNat / 2 ^ 16))
      (UInt8.ofNat (number.toNat / 2 ^ 8)) (UInt8.ofNat number.toNat) = number := by
  rw [← UInt32.toNat_inj]
  exact toNat_fromBeBytes_ofNat number.toNat_lt

/-! ### Encoding and decoding -/

/-- The header of a frame. -/
def WireFrame.header (frame : WireFrame) : List UInt8 :=
  [frameVersion, frame.kind.asU8, 0, 0] ++ beBytes frame.stream ++
    beBytes (UInt32.ofNat frame.payload.length)

/-- The bytes of a frame. -/
def WireFrame.bytes (frame : WireFrame) : List UInt8 :=
  frame.header ++ frame.payload

/-- Appends a frame to a buffer, unless its payload is too large. -/
def encode (frame : WireFrame) (limits : Limits) (out : List UInt8) :
    Except ProtocolError (List UInt8) :=
  if 2 ^ 32 ≤ frame.payload.length then
    .error (.frameTooLarge frame.payload.length limits.maxFramePayload)
  else if limits.maxFramePayload < frame.payload.length then
    .error (.frameTooLarge frame.payload.length limits.maxFramePayload)
  else
    .ok (out ++ frame.bytes)

/-- Reads a header: the kind, the stream and the claimed length of a frame. -/
def readHeader (limits : Limits) (version kind high low s0 s1 s2 s3 l0 l1 l2 l3 : UInt8) :
    Except ProtocolError (FrameKind × UInt32 × Nat) :=
  if version ≠ frameVersion then .error (.unsupportedFrameVersion version)
  else
    match FrameKind.fromU8 kind with
    | none => .error (.unknownFrameKind kind)
    | some found =>
      if high ||| low ≠ 0 then .error (.unknownFrameFlags (high ||| low))
      else if limits.maxFramePayload < (fromBeBytes l0 l1 l2 l3).toNat then
        .error (.frameTooLarge (fromBeBytes l0 l1 l2 l3).toNat limits.maxFramePayload)
      else
        .ok (found, fromBeBytes s0 s1 s2 s3, (fromBeBytes l0 l1 l2 l3).toNat)

/-- Takes the next whole frame out of a buffer; the second component is the buffer afterwards. -/
def decode (buffer : List UInt8) (limits : Limits) :
    Except ProtocolError (Option WireFrame) × List UInt8 :=
  match buffer with
  | version :: kind :: high :: low :: s0 :: s1 :: s2 :: s3 :: l0 :: l1 :: l2 :: l3 :: rest =>
    match readHeader limits version kind high low s0 s1 s2 s3 l0 l1 l2 l3 with
    | .error error => (.error error, buffer)
    | .ok (found, stream, claimed) =>
      if rest.length < claimed then (.ok none, buffer)
      else (.ok (some ⟨found, stream, rest.take claimed⟩), rest.drop claimed)
  | _ => (.ok none, buffer)

variable {limits : Limits}

/-- What a header that is read says. -/
theorem readHeader_eq_ok {version kind high low s0 s1 s2 s3 l0 l1 l2 l3 : UInt8} {found : FrameKind}
    {stream : UInt32} {claimed : Nat}
    (h : readHeader limits version kind high low s0 s1 s2 s3 l0 l1 l2 l3 =
      .ok (found, stream, claimed)) :
    version = frameVersion ∧ found.asU8 = kind ∧ high = 0 ∧ low = 0 ∧
      beBytes stream = [s0, s1, s2, s3] ∧ beBytes (UInt32.ofNat claimed) = [l0, l1, l2, l3] ∧
      claimed ≤ limits.maxFramePayload := by
  unfold readHeader at h
  by_cases hversion : version ≠ frameVersion
  · rw [if_pos hversion] at h
    exact absurd h (by simp)
  rw [if_neg hversion] at h
  cases hkind : FrameKind.fromU8 kind with
  | none =>
    rw [hkind] at h
    exact absurd h (by simp)
  | some found' =>
    rw [hkind] at h
    dsimp only at h
    split_ifs at h with hflags hlarge
    obtain ⟨rfl, hpair⟩ := Prod.mk.inj (Except.ok.inj h)
    obtain ⟨rfl, rfl⟩ := Prod.mk.inj hpair
    have hzero : high = 0 ∧ low = 0 := UInt8.or_eq_zero_iff.1 (by simpa using hflags)
    refine ⟨by simpa using hversion, FrameKind.asU8_of_fromU8 hkind, hzero.1, hzero.2,
      beBytes_fromBeBytes s0 s1 s2 s3, ?_, Nat.le_of_not_lt hlarge⟩
    rw [UInt32.ofNat_toNat]
    exact beBytes_fromBeBytes l0 l1 l2 l3

variable {frame : WireFrame}

theorem encode_eq_ok (out : List UInt8) (h : frame.payload.length ≤ limits.maxFramePayload) :
    encode frame limits out = .ok (out ++ frame.bytes) := by
  have hceiling := limits.maxFramePayload_mem.2
  simp only [maxFramePayloadCeiling] at hceiling
  rw [encode, if_neg (by omega), if_neg (by omega)]

theorem readHeader_header (h : frame.payload.length ≤ limits.maxFramePayload) :
    readHeader limits frameVersion frame.kind.asU8 0 0
      (UInt8.ofNat (frame.stream.toNat / 2 ^ 24)) (UInt8.ofNat (frame.stream.toNat / 2 ^ 16))
      (UInt8.ofNat (frame.stream.toNat / 2 ^ 8)) (UInt8.ofNat frame.stream.toNat)
      (UInt8.ofNat (frame.payload.length / 2 ^ 24)) (UInt8.ofNat (frame.payload.length / 2 ^ 16))
      (UInt8.ofNat (frame.payload.length / 2 ^ 8)) (UInt8.ofNat frame.payload.length) =
      .ok (frame.kind, frame.stream, frame.payload.length) := by
  have hceiling := limits.maxFramePayload_mem.2
  simp only [maxFramePayloadCeiling] at hceiling
  have hlength := toNat_fromBeBytes_ofNat (show frame.payload.length < 2 ^ 32 by omega)
  simp only [readHeader, FrameKind.fromU8_asU8, hlength, fromBeBytes_ofNat]
  rw [if_neg (by simp), if_neg (by decide), if_neg (by omega)]

theorem bytes_eq (h : frame.payload.length ≤ limits.maxFramePayload) :
    frame.bytes = frameVersion :: frame.kind.asU8 :: 0 :: 0 ::
      UInt8.ofNat (frame.stream.toNat / 2 ^ 24) :: UInt8.ofNat (frame.stream.toNat / 2 ^ 16) ::
      UInt8.ofNat (frame.stream.toNat / 2 ^ 8) :: UInt8.ofNat frame.stream.toNat ::
      UInt8.ofNat (frame.payload.length / 2 ^ 24) :: UInt8.ofNat (frame.payload.length / 2 ^ 16) ::
      UInt8.ofNat (frame.payload.length / 2 ^ 8) :: UInt8.ofNat frame.payload.length ::
      frame.payload := by
  have hceiling := limits.maxFramePayload_mem.2
  simp only [maxFramePayloadCeiling] at hceiling
  have hclaimed : (UInt32.ofNat frame.payload.length).toNat = frame.payload.length := by
    rw [UInt32.toNat_ofNat']
    omega
  simp only [WireFrame.bytes, WireFrame.header, beBytes, hclaimed, List.cons_append,
    nil_append]

theorem decode_bytes_append (h : frame.payload.length ≤ limits.maxFramePayload)
    (rest : List UInt8) : decode (frame.bytes ++ rest) limits = (.ok (some frame), rest) := by
  rw [bytes_eq h]
  simp only [cons_append, decode, readHeader_header h]
  rw [if_neg (by simp)]
  simp

/-- What is less than the bytes of a frame within the limits yields nothing yet. -/
theorem decode_of_prefix (h : frame.payload.length ≤ limits.maxFramePayload)
    {buffer missing : List UInt8} (hbytes : frame.bytes = buffer ++ missing)
    (hmissing : missing ≠ []) : decode buffer limits = (.ok none, buffer) := by
  unfold decode
  split
  next version kind high low s0 s1 s2 s3 l0 l1 l2 l3 rest =>
    rw [bytes_eq h] at hbytes
    simp only [cons_append, cons.injEq] at hbytes
    obtain ⟨rfl, rfl, rfl, rfl, rfl, rfl, rfl, rfl, rfl, rfl, rfl, rfl, hpayload⟩ := hbytes
    have hshort : rest.length < frame.payload.length := by
      have hpos := length_pos_iff.2 hmissing
      rw [hpayload, length_append]
      omega
    simp only [readHeader_header h, if_pos hshort]
  · rfl

/-- **Decoding a buffer.** Nothing yet, with the buffer as it was; an error; or a frame within the
limits whose bytes are exactly what was removed. -/
theorem decode_eq (buffer : List UInt8) (limits : Limits) :
    decode buffer limits = (.ok none, buffer) ∨ (∃ error, (decode buffer limits).1 = .error error) ∨
      ∃ frame rest, decode buffer limits = (.ok (some frame), rest) ∧
        frame.payload.length ≤ limits.maxFramePayload ∧ buffer = frame.bytes ++ rest := by
  unfold decode
  split
  next version kind high low s0 s1 s2 s3 l0 l1 l2 l3 rest =>
    cases hheader : readHeader limits version kind high low s0 s1 s2 s3 l0 l1 l2 l3 with
    | error error => exact .inr (.inl ⟨error, rfl⟩)
    | ok header =>
      obtain ⟨found, stream, claimed⟩ := header
      obtain ⟨rfl, rfl, rfl, rfl, hstream, hclaimed, hle⟩ := readHeader_eq_ok hheader
      by_cases hshort : rest.length < claimed
      · exact .inl (by simp only [if_pos hshort])
      · have hlength : (rest.take claimed).length = claimed := by
          rw [length_take]
          omega
        simp only [if_neg hshort]
        refine .inr (.inr ⟨_, _, rfl, by rw [hlength]; exact hle, ?_⟩)
        simp only [WireFrame.bytes, WireFrame.header, hlength, hstream, hclaimed, cons_append,
          nil_append, take_append_drop]
  · exact .inl rfl

/-! ### The reader -/

/-- A read that brought something. -/
structure Chunk where
  bytes : List UInt8
  nonempty : bytes ≠ []

/-- The reading half of a connection: what is buffered, and the reads that are still to come before
the stream ends. -/
structure FrameReader where
  buffer : List UInt8
  reads : List Chunk

/-- What has not been taken yet, buffered or not. -/
def FrameReader.remaining (reader : FrameReader) : List UInt8 :=
  reader.buffer ++ reader.reads.flatMap (·.bytes)

/-- The error of a stream that ends inside a frame. -/
def cutShort : ErrorValue :=
  unreachable "the peer closed the link in the middle of a frame"

namespace FrameReader

/-- The next frame, with what is buffered and still to be read afterwards: the buffer is decoded, and
read into as long as that yields nothing. -/
def nextFrom (limits : Limits) : List Chunk → List UInt8 →
    Except ErrorValue (Option WireFrame) × FrameReader
  | [], buffer =>
    match decode buffer limits with
    | (.error error, buffer) => (.error error.toErrorValue, ⟨buffer, []⟩)
    | (.ok (some frame), buffer) => (.ok (some frame), ⟨buffer, []⟩)
    | (.ok none, buffer) =>
      if buffer.isEmpty then (.ok none, ⟨buffer, []⟩) else (.error cutShort, ⟨buffer, []⟩)
  | chunk :: reads, buffer =>
    match decode buffer limits with
    | (.error error, buffer) => (.error error.toErrorValue, ⟨buffer, chunk :: reads⟩)
    | (.ok (some frame), buffer) => (.ok (some frame), ⟨buffer, chunk :: reads⟩)
    | (.ok none, buffer) => nextFrom limits reads (buffer ++ chunk.bytes)

/-- The next frame, or nothing when the peer closed the link cleanly, with the reader afterwards. -/
def next (limits : Limits) (reader : FrameReader) :
    Except ErrorValue (Option WireFrame) × FrameReader :=
  nextFrom limits reader.reads reader.buffer

/-- What a number of calls in a row return. -/
def calls (limits : Limits) : Nat → FrameReader → List (Except ErrorValue (Option WireFrame))
  | 0, _ => []
  | count + 1, reader =>
    let answer := reader.next limits
    answer.1 :: calls limits count answer.2

/-- A reader with the bytes of a frame ahead of it returns the frame, and has what follows ahead of
it afterwards. -/
theorem next_of_remaining (hframe : frame.payload.length ≤ limits.maxFramePayload)
    (rest : List UInt8) :
    ∀ (reads : List Chunk) (buffer : List UInt8),
      FrameReader.remaining ⟨buffer, reads⟩ = frame.bytes ++ rest →
      ∃ after, nextFrom limits reads buffer = (.ok (some frame), after) ∧ after.remaining = rest := by
  intro reads
  induction reads with
  | nil =>
    intro buffer hbytes
    have hbuffer : buffer = frame.bytes ++ rest := by simpa [remaining] using hbytes
    refine ⟨⟨rest, []⟩, ?_, by simp [remaining]⟩
    simp only [nextFrom, hbuffer, decode_bytes_append hframe]
  | cons chunk reads ih =>
    intro buffer hbytes
    -- either the frame is in the buffer already, or part of it is still to be read
    have hsplit : buffer ++ (chunk :: reads).flatMap (·.bytes) = frame.bytes ++ rest := hbytes
    rcases append_eq_append_iff.1 hsplit with ⟨missing, hframeBytes, hreads⟩ |
      ⟨extra, hbuffer, hrest⟩
    · by_cases hmissing : missing = []
      · subst hmissing
        rw [List.append_nil] at hframeBytes
        refine ⟨⟨[], chunk :: reads⟩, ?_, by simpa [remaining] using hreads⟩
        have hdecode := decode_bytes_append hframe []
        rw [append_nil, hframeBytes] at hdecode
        simp only [nextFrom, hdecode]
      · have hnone := decode_of_prefix hframe hframeBytes hmissing
        simp only [nextFrom, hnone]
        refine ih (buffer ++ chunk.bytes) ?_
        simpa [remaining] using hbytes
    · refine ⟨⟨extra, chunk :: reads⟩, ?_, by simpa [remaining] using hrest.symm⟩
      simp only [nextFrom, hbuffer, decode_bytes_append hframe]

/-- A reader with less than the bytes of a frame ahead of it reports a clean end if there is nothing,
and otherwise that the stream was cut short. -/
theorem next_of_prefix (hframe : frame.payload.length ≤ limits.maxFramePayload)
    {missing : List UInt8} (hmissing : missing ≠ []) :
    ∀ (reads : List Chunk) (buffer : List UInt8),
      frame.bytes = FrameReader.remaining ⟨buffer, reads⟩ ++ missing →
      (nextFrom limits reads buffer).1 =
        if (FrameReader.remaining ⟨buffer, reads⟩).isEmpty then .ok none else .error cutShort := by
  intro reads
  induction reads with
  | nil =>
    intro buffer hbytes
    have hbuffer : FrameReader.remaining ⟨buffer, []⟩ = buffer := by simp [remaining]
    rw [hbuffer] at hbytes ⊢
    simp only [nextFrom, decode_of_prefix hframe hbytes hmissing]
    split_ifs <;> rfl
  | cons chunk reads ih =>
    intro buffer hbytes
    have hahead : FrameReader.remaining ⟨buffer, chunk :: reads⟩ =
        FrameReader.remaining ⟨buffer ++ chunk.bytes, reads⟩ := by
      simp [remaining]
    have hpart : frame.bytes = buffer ++ ((chunk :: reads).flatMap (·.bytes) ++ missing) := by
      rw [hbytes, remaining, append_assoc]
    have hnone := decode_of_prefix hframe hpart (by simp [hmissing])
    simp only [nextFrom, hnone]
    rw [hahead] at hbytes ⊢
    exact ih (buffer ++ chunk.bytes) hbytes

/-- What a call returned, in terms of the bytes that were ahead: a frame is the one whose bytes were
taken, and a clean end is reported only where nothing was left. -/
theorem remaining_of_next :
    ∀ (reads : List Chunk) (buffer : List UInt8) (after : FrameReader),
      (∀ frame, nextFrom limits reads buffer = (.ok (some frame), after) →
        FrameReader.remaining ⟨buffer, reads⟩ = frame.bytes ++ after.remaining) ∧
      (nextFrom limits reads buffer = (.ok none, after) →
        FrameReader.remaining ⟨buffer, reads⟩ = []) := by
  intro reads
  induction reads with
  | nil =>
    intro buffer after
    rcases decode_eq buffer limits with hnone | ⟨error, herror⟩ | ⟨frame, rest, hsome, -, hbuffer⟩
    · simp only [nextFrom, hnone]
      split_ifs with hempty
      · exact ⟨fun _ h => absurd h (by simp), fun _ => by simpa [remaining] using hempty⟩
      · exact ⟨fun _ h => absurd h (by simp), fun h => absurd h (by simp)⟩
    · have hpair : decode buffer limits = (.error error, (decode buffer limits).2) :=
        Prod.ext herror rfl
      simp only [nextFrom]
      rw [hpair]
      exact ⟨fun _ h => absurd h (by simp), fun h => absurd h (by simp)⟩
    · simp only [nextFrom, hsome]
      refine ⟨fun found h => ?_, fun h => absurd h (by simp)⟩
      obtain ⟨hfound, rfl⟩ := Prod.mk.inj h
      obtain rfl := Option.some.inj (Except.ok.inj hfound)
      simpa [remaining] using hbuffer
  | cons chunk reads ih =>
    intro buffer after
    have hahead : FrameReader.remaining ⟨buffer, chunk :: reads⟩ =
        FrameReader.remaining ⟨buffer ++ chunk.bytes, reads⟩ := by
      simp [remaining]
    rcases decode_eq buffer limits with hnone | ⟨error, herror⟩ | ⟨frame, rest, hsome, -, hbuffer⟩
    · simp only [nextFrom, hnone]
      rw [hahead]
      exact ih (buffer ++ chunk.bytes) after
    · have hpair : decode buffer limits = (.error error, (decode buffer limits).2) :=
        Prod.ext herror rfl
      simp only [nextFrom]
      rw [hpair]
      exact ⟨fun _ h => absurd h (by simp), fun h => absurd h (by simp)⟩
    · simp only [nextFrom, hsome]
      refine ⟨fun found h => ?_, fun h => absurd h (by simp)⟩
      obtain ⟨hfound, rfl⟩ := Prod.mk.inj h
      obtain rfl := Option.some.inj (Except.ok.inj hfound)
      simp [remaining, hbuffer]

/-! ### Several calls -/

/-- A reader with the bytes of several frames ahead of it returns them in order, and what comes
after them is decided by what follows. -/
theorem calls_of_remaining (frames : List WireFrame) (rest : List UInt8) (reader : FrameReader)
    (hframes : ∀ frame ∈ frames, frame.payload.length ≤ limits.maxFramePayload)
    (hbytes : reader.remaining = frames.flatMap (·.bytes) ++ rest) :
    ∃ after : FrameReader, after.remaining = rest ∧
      reader.calls limits (frames.length + 1) =
        frames.map (fun frame => .ok (some frame)) ++ [(after.next limits).1] := by
  induction frames generalizing reader with
  | nil => exact ⟨reader, by simpa using hbytes, rfl⟩
  | cons frame frames ih =>
    have hhead : FrameReader.remaining ⟨reader.buffer, reader.reads⟩ =
        frame.bytes ++ (frames.flatMap (·.bytes) ++ rest) := by
      simpa [append_assoc] using hbytes
    obtain ⟨middle, hnext, hmiddle⟩ := next_of_remaining (hframes frame mem_cons_self)
      (frames.flatMap (·.bytes) ++ rest) reader.reads reader.buffer hhead
    obtain ⟨after, hafter, hcalls⟩ := ih middle
      (fun frame hframe => hframes frame (mem_cons_of_mem _ hframe)) hmiddle
    refine ⟨after, hafter, ?_⟩
    have hnext : reader.next limits = (.ok (some frame), middle) := hnext
    rw [length_cons, calls, hnext]
    simp [hcalls]

/-- Frames and then a clean end are returned only where the stream is the bytes of those frames. -/
theorem remaining_of_calls (frames : List WireFrame) (reader : FrameReader)
    (h : reader.calls limits (frames.length + 1) =
      frames.map (fun frame => .ok (some frame)) ++ [.ok none]) :
    reader.remaining = frames.flatMap (·.bytes) := by
  induction frames generalizing reader with
  | nil =>
    have hnext : (reader.next limits).1 = .ok none := by simpa [calls] using h
    have hpair : nextFrom limits reader.reads reader.buffer = (.ok none, (reader.next limits).2) :=
      Prod.ext hnext rfl
    exact (remaining_of_next reader.reads reader.buffer _).2 hpair
  | cons frame frames ih =>
    rw [length_cons, calls] at h
    simp only [map_cons, cons_append, cons.injEq] at h
    have hpair : nextFrom limits reader.reads reader.buffer =
        (.ok (some frame), (reader.next limits).2) :=
      Prod.ext h.1 rfl
    have htaken := (remaining_of_next reader.reads reader.buffer _).1 frame hpair
    rw [List.flatMap_cons, ← ih _ h.2]
    exact htaken

end FrameReader

/-! ### The writer -/

/-- The bytes a writer puts on the wire for some frames, if each is within the limits. -/
def encodeAll (limits : Limits) (frames : List WireFrame) : Except ProtocolError (List UInt8) :=
  frames.foldlM (fun out frame => encode frame limits out) []

theorem encodeAll_eq_ok {frames : List WireFrame}
    (h : ∀ frame ∈ frames, frame.payload.length ≤ limits.maxFramePayload) :
    encodeAll limits frames = .ok (frames.flatMap (·.bytes)) := by
  have hfrom (out : List UInt8) : frames.foldlM (fun out frame => encode frame limits out) out =
      .ok (out ++ frames.flatMap (·.bytes)) := by
    induction frames generalizing out with
    | nil => simp [pure, Except.pure]
    | cons frame frames ih =>
      rw [List.foldlM_cons, encode_eq_ok out (h frame List.mem_cons_self)]
      have hrest := ih (fun frame hframe => h frame (mem_cons_of_mem _ hframe))
        (out ++ frame.bytes)
      simpa [bind, Except.bind, List.append_assoc] using hrest
  unfold encodeAll
  simpa using hfrom []

/-- **Framing is a prefix code over any division into reads.** Frames within the limits come back in
order and are followed by a clean end. Decoding any buffer leaves it alone, fails, or removes
exactly the encoding of the frame it returns. A stream cut inside a frame is reported as an error,
and a clean end only ever stands after a stream that is the encoding of the frames before it. -/
theorem framing_prefix_code (limits : Limits) :
    (∀ (frames : List WireFrame) (reads : List Chunk),
      (∀ frame ∈ frames, frame.payload.length ≤ limits.maxFramePayload) →
      encodeAll limits frames = .ok (reads.flatMap (·.bytes)) →
      FrameReader.calls limits (frames.length + 1) ⟨[], reads⟩ =
        frames.map (fun frame => .ok (some frame)) ++ [.ok none]) ∧
    (∀ buffer : List UInt8,
      decode buffer limits = (.ok none, buffer) ∨
      (∃ error, (decode buffer limits).1 = .error error) ∨
      ∃ frame removed rest, decode buffer limits = (.ok (some frame), rest) ∧
        encode frame limits [] = .ok removed ∧ buffer = removed ++ rest) ∧
    (∀ (frames : List WireFrame) (cut : WireFrame) (part missing : List UInt8)
        (reads : List Chunk),
      (∀ frame ∈ cut :: frames, frame.payload.length ≤ limits.maxFramePayload) →
      encode cut limits [] = .ok (part ++ missing) → part ≠ [] → missing ≠ [] →
      reads.flatMap (·.bytes) = frames.flatMap (·.bytes) ++ part →
      FrameReader.calls limits (frames.length + 1) ⟨[], reads⟩ =
        frames.map (fun frame => .ok (some frame)) ++ [.error cutShort]) ∧
    ∀ (frames : List WireFrame) (reads : List Chunk),
      FrameReader.calls limits (frames.length + 1) ⟨[], reads⟩ =
        frames.map (fun frame => .ok (some frame)) ++ [.ok none] →
      reads.flatMap (·.bytes) = frames.flatMap (·.bytes) := by
  refine ⟨?_, ?_, ?_, ?_⟩
  · intro frames reads hframes hencode
    rw [encodeAll_eq_ok hframes] at hencode
    have hbytes : FrameReader.remaining ⟨[], reads⟩ = frames.flatMap (·.bytes) ++ [] := by
      simpa [FrameReader.remaining] using (Except.ok.inj hencode).symm
    obtain ⟨after, hafter, hcalls⟩ :=
      FrameReader.calls_of_remaining frames [] ⟨[], reads⟩ hframes hbytes
    -- what is left is less than the bytes of any frame
    have hframe : (WireFrame.mk .finish 0 []).payload.length ≤ limits.maxFramePayload :=
      Nat.zero_le _
    have hmissing : (WireFrame.mk .finish 0 []).bytes ≠ [] := by
      simp [WireFrame.bytes, WireFrame.header]
    have hclean := FrameReader.next_of_prefix hframe hmissing after.reads after.buffer
      (by simp [hafter])
    rw [hcalls, FrameReader.next, hclean]
    simp [hafter]
  · intro buffer
    rcases decode_eq buffer limits with hnone | herror | ⟨frame, rest, hsome, hframe, hbuffer⟩
    · exact .inl hnone
    · exact .inr (.inl herror)
    · exact .inr (.inr ⟨frame, frame.bytes, rest, hsome, encode_eq_ok [] hframe, hbuffer⟩)
  · intro frames cut part missing reads hframes hcut hpart hmissing hreads
    have hcutLimit := hframes cut mem_cons_self
    rw [encode_eq_ok [] hcutLimit, nil_append] at hcut
    obtain ⟨after, hafter, hcalls⟩ := FrameReader.calls_of_remaining frames part ⟨[], reads⟩
      (fun frame hframe => hframes frame (mem_cons_of_mem _ hframe))
      (by simpa [FrameReader.remaining] using hreads)
    have hend := FrameReader.next_of_prefix hcutLimit hmissing after.reads after.buffer
      (by simpa [hafter] using Except.ok.inj hcut)
    rw [hcalls, FrameReader.next, hend]
    simp [hafter, hpart]
  · intro frames reads hcalls
    simpa [FrameReader.remaining] using FrameReader.remaining_of_calls frames ⟨[], reads⟩ hcalls

theorem framing_prefix_code_split :
    FrameReader.calls Limits.default 2
        ⟨[], [⟨(WireFrame.mk .finish 0 []).bytes.take 5, by decide⟩,
          ⟨(WireFrame.mk .finish 0 []).bytes.drop 5, by decide⟩]⟩ =
      [.ok (some (WireFrame.mk .finish 0 [])), .ok none] := by
  refine (framing_prefix_code Limits.default).1 [WireFrame.mk .finish 0 []] _ ?_ ?_
  · intro frame hframe
    rw [mem_singleton.mp hframe]
    exact Nat.zero_le _
  · rfl

end OnoSendai.Link
