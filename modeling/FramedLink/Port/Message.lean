import FramedLink.Link.Script
import FramedLink.Port.Address

/-! # Messages

A message of any length goes over a link in segments of at most one payload each. Nothing of it is
sent unless the link has room for all of it.
-/

namespace FramedLink.Port

/-- The segments of a message with their markers; `first` says that its beginning is there. -/
def segments (first : Bool) (message : Bytes) : List (Segment × Bytes) :=
  if message.length ≤ Frame.maxPayload then [(Segment.ofEnds first true, message)]
  else
    (Segment.ofEnds first false, message.take Frame.maxPayload) ::
      segments false (message.drop Frame.maxPayload)
termination_by message.length
decreasing_by
  simp only [List.length_drop, Frame.maxPayload] at *
  omega

theorem flatMap_segments (first : Bool) (message : Bytes) :
    (segments first message).flatMap (·.2) = message := by
  fun_induction segments first message with
  | case1 => simp
  | case2 _ _ _ ih => simp [ih]

variable {ω : Type}

def sendSegment (port : Nat) (segment : Segment) (data : Nat) (payload : Bytes) :
    Script ω (Except Fault Unit) :=
  match Address.make port segment data with
  | .error fault => .done (.error fault)
  | .ok address => .sendFrame address.pack payload

/-- Sends segments one after the other, up to the first that is refused. -/
def sendSegments (port data : Nat) : List (Segment × Bytes) → Script ω (Except Fault Unit)
  | [] => .done (.ok ())
  | (segment, payload) :: rest =>
    (sendSegment port segment data payload).bind fun
      | .error fault => .done (.error fault)
      | .ok () => sendSegments port data rest

def sendMessage (port data : Nat) (message : Bytes) : Script ω (Except Fault Unit) :=
  if message = [] then .done (.error .emptyPayload)
  else
    match Address.make port .single data with
    | .error fault => .done (.error fault)
    | .ok _ =>
      let parts := segments true message
      .capacity fun available =>
        if available < parts.length then .done (.error (.windowFull parts.length available))
        else sendSegments port data parts

end FramedLink.Port
