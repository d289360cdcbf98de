/-! # Frame types

A frame carries data or controls the link. Its type is a five-bit code; the codes of the control
frames lie far enough apart that no single flipped bit turns one type into another.
-/

namespace FramedLink

/-- What a control frame says about a frame id. -/
inductive Control where
  /-- Every frame up to this id has arrived. -/
  | ackAll
  /-- Exactly this frame has arrived. -/
  | ackOne
  /-- This frame was expected when another one arrived. -/
  | nackId
  /-- This frame was expected when the stream of frames was lost. -/
  | nackFraming
  /-- The link is to begin anew (id 0), or has done so (any other id). -/
  | reset
  deriving DecidableEq, Repr

inductive FrameType where
  | data
  | control (control : Control)
  deriving DecidableEq, Repr

namespace FrameType

/-- The five-bit code on the wire. -/
def code : FrameType → Nat
  | data => 0x00
  | control .ackAll => 0x0F
  | control .ackOne => 0x17
  | control .nackId => 0x1B
  | control .nackFraming => 0x1D
  | control .reset => 0x1E

def ofCode? : Nat → Option FrameType
  | 0x00 => some data
  | 0x0F => some (control .ackAll)
  | 0x17 => some (control .ackOne)
  | 0x1B => some (control .nackId)
  | 0x1D => some (control .nackFraming)
  | 0x1E => some (control .reset)
  | _ => none

def isControl : FrameType → Bool
  | data => false
  | control _ => true

def name : FrameType → String
  | data => "DATA"
  | control .ackAll => "ACK_ALL"
  | control .ackOne => "ACK_ONE"
  | control .nackId => "NACK_FRAME_ID"
  | control .nackFraming => "NACK_FRAMING_ERROR"
  | control .reset => "RESET"

theorem code_lt (type : FrameType) : type.code < 32 := by
  rcases type with _ | control
  · decide
  · cases control <;> decide

@[simp] theorem ofCode?_code (type : FrameType) : ofCode? type.code = some type := by
  rcases type with _ | control
  · rfl
  · cases control <;> rfl

theorem ofCode?_eq_some_iff {n : Nat} {type : FrameType} :
    ofCode? n = some type ↔ n = type.code := by
  refine ⟨fun h => ?_, fun h => h ▸ ofCode?_code type⟩
  unfold ofCode? at h
  split at h <;> simp at h <;> subst h <;> rfl

end FrameType

end FramedLink
