import OnoSendai.Value
import OnoSendai.Change.Id

/-!
# What crosses a link

The bounds both ends of a link enforce, what can be wrong with what a peer sends, and what a
stream carries.

A payload is routed by the header of its frame and is never looked into on the way, so what a
stream carries is a parameter here: `μ` stands for the values, events and outcomes.
-/

namespace OnoSendai.Link

/-! ### Limits -/

/-- The largest stream count a link allows. -/
def maxStreamsCeiling : Nat :=
  256

/-- The largest credit window a link allows. -/
def maxCreditCeiling : Nat :=
  1024

/-- The largest payload a frame may claim. -/
def maxFramePayloadCeiling : Nat :=
  2 ^ 20

/-- The deepest nesting of a value. -/
def maxValueDepthCeiling : Nat :=
  64

/-- The bounds one end of a link enforces. Every setter clamps, so no bound is zero or above its
ceiling. -/
structure Limits where
  maxFramePayload : Nat
  maxValueDepth : Nat
  maxStreams : Nat
  maxCredit : Nat
  maxFramePayload_mem : 1 ≤ maxFramePayload ∧ maxFramePayload ≤ maxFramePayloadCeiling
  maxValueDepth_mem : 1 ≤ maxValueDepth ∧ maxValueDepth ≤ maxValueDepthCeiling
  maxStreams_mem : 1 ≤ maxStreams ∧ maxStreams ≤ maxStreamsCeiling
  maxCredit_mem : 1 ≤ maxCredit ∧ maxCredit ≤ maxCreditCeiling

/-- A number put into a range. -/
def clamp (low high n : Nat) : Nat :=
  min (max low n) high

theorem clamp_mem {low high : Nat} (h : low ≤ high) (n : Nat) :
    low ≤ clamp low high n ∧ clamp low high n ≤ high := by
  simp only [clamp]
  omega

namespace Limits

/-- The limits a link has unless it is told otherwise. -/
def default : Limits where
  maxFramePayload := maxFramePayloadCeiling
  maxValueDepth := maxValueDepthCeiling
  maxStreams := maxStreamsCeiling
  maxCredit := maxCreditCeiling
  maxFramePayload_mem := by decide
  maxValueDepth_mem := by decide
  maxStreams_mem := by decide
  maxCredit_mem := by decide

/-- Bounds the number of concurrent streams. -/
def withMaxStreams (limits : Limits) (streams : Nat) : Limits :=
  { limits with
    maxStreams := clamp 1 maxStreamsCeiling streams
    maxStreams_mem := clamp_mem (by decide) streams }

end Limits

/-! ### Errors -/

/-- The identifier of a stream on one link. -/
abbrev StreamId : Type :=
  UInt32

/-- A peer said something this protocol cannot mean. -/
inductive ProtocolError
  | frameTooLarge (claimed limit : Nat)
  | unsupportedFrameVersion (found : UInt8)
  | unknownFrameKind (kind : UInt8)
  | unknownFrameFlags (flags : UInt8)
  | malformedPayload (kind detail : String)
  | valueTooDeep (depth limit : Nat)
  | creditExceeded (stream : StreamId)
  | tooManyStreams (limit : Nat)

/-- The sentence of a protocol error. -/
def ProtocolError.message : ProtocolError → String
  | frameTooLarge claimed limit =>
    "a frame claims " ++ toString claimed ++ " bytes of payload, and the limit is " ++
      toString limit
  | unsupportedFrameVersion found =>
    "a frame carries framing version " ++ toString found.toNat ++
      ", and this build speaks version 1"
  | unknownFrameKind kind =>
    "a frame carries message kind " ++ toString kind.toNat ++
      ", which this protocol does not define"
  | unknownFrameFlags flags =>
    "a frame sets undefined frame flags 0x" ++ String.ofList (hexByte flags)
  | malformedPayload kind detail =>
    "a " ++ kind ++ " message does not hold what its kind promises: " ++ detail
  | valueTooDeep depth limit =>
    "a value nests " ++ toString depth ++ " levels deep, and the limit is " ++ toString limit
  | creditExceeded stream =>
    "the peer sent more on stream " ++ toString stream.toNat ++
      " than its credit window allows"
  | tooManyStreams limit =>
    "the link already has " ++ toString limit ++ " streams open, which is the limit"

/-- The error a protocol error is reported as. -/
def ProtocolError.toErrorValue (error : ProtocolError) : ErrorValue where
  code := .other "remote.protocol_mismatch"
  message := error.message

/-- The error of a link that cannot be established, or is lost while in use. -/
def unreachable (detail : String) : ErrorValue where
  code := .other "remote.unreachable"
  message := "the remote link is not available: " ++ detail

/-! ### Streams -/

/-- What arrives on a stream: a value or an event, the outcome of an action, a failure concerning
one item, or the end of the stream. -/
inductive Inbound (μ : Type)
  | content (item : μ)
  | outcome (item : μ)
  | failure (error : ErrorValue)
  | finish

/-- Whether something on a stream is its end. -/
def Inbound.isFinish {μ : Type} : Inbound μ → Bool
  | finish => true
  | _ => false

/-- A frame on its way to one end of a link. -/
structure Frame (μ : Type) where
  stream : StreamId
  inbound : Inbound μ

end OnoSendai.Link
