import FramedLink.Segment
import FramedLink.Link.Setting
import FramedLink.Text.Hexadecimal

/-! # Faults

Why an operation is refused, and how that is said. Damage on the wire is no fault of an operation:
it is made good by repetition and shows in the counters only.
-/

namespace FramedLink

open Text

/-- The cause of a refusal. -/
inductive Fault where
  | tooBig (size max : Nat)
  | emptyPayload
  /-- An id outside the eleven bits. -/
  | invalidId (id : Nat)
  /-- Metadata outside the 24 bits. -/
  | invalidMetadata (metadata : Nat)
  /-- A type code that is unknown, or of the wrong kind of frame. -/
  | invalidType (code : Nat)
  | invalidPort (port : Nat)
  /-- Two bytes that start no frame, the first as the higher one. -/
  | invalidStart (found : Nat)
  /-- A frame whose checksum is another than the one computed. -/
  | checksumMismatch (computed found : UInt32)
  | bufferTooSmall (needed got : Nat)
  | invalidSetting (setting : Setting) (value : Nat) (reason : Unfit)
  /-- More frames than the send window has room for. -/
  | windowFull (needed available : Nat)
  /-- No storage is left for a frame. -/
  | outOfStorage
  /-- A segment that continues no message. -/
  | unexpectedSegment (segment : Segment)
  deriving DecidableEq, Repr

def Fault.message : Fault → String
  | tooBig size max => s!"payload too large: {size} bytes (max {max})"
  | emptyPayload => "empty payload"
  | invalidId id => s!"invalid frame id: {id} (max {Frame.maxId})"
  | invalidMetadata metadata =>
    "invalid metadata: " ++ hexadecimal 1 metadata ++ " exceeds 24 bits"
  | invalidType code => "invalid frame type: " ++ hexadecimal 2 code
  | invalidPort port => s!"invalid port id: {port} (max 63)"
  | invalidStart found => "invalid start of frame: " ++ hexadecimal 4 found
  | checksumMismatch computed found =>
    "checksum mismatch: expected " ++ hexadecimal 8 computed.toNat ++ ", got " ++
      hexadecimal 8 found.toNat
  | bufferTooSmall needed got => s!"buffer too small: need {needed} bytes, got {got}"
  | invalidSetting setting value reason =>
    s!"invalid config: {setting.name} = {value}: {reason.reason}"
  | windowFull needed available =>
    s!"send window full: {needed} frames needed, {available} free"
  | outOfStorage => "not enough memory: transmit buffers exhausted"
  | unexpectedSegment segment => s!"unexpected segment sequence: {segment.name}"

end FramedLink
