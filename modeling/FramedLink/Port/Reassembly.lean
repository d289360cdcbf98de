import FramedLink.Bytes
import FramedLink.Fault

/-! # Reassembly

Puts segments together into messages of a limited length. A segment that begins a message ends
whatever was begun before; one that goes on with a message needs one that was begun.
-/

namespace FramedLink.Port

structure Reassembly where
  limit : Nat
  /-- The bytes of the message so far. -/
  partly : Bytes := []
  active : Bool := false
  deriving DecidableEq, Repr, Inhabited

namespace Reassembly

/-- The reassembly with nothing of a message. -/
def clear (r : Reassembly) : Reassembly := { limit := r.limit }

/-- Takes a segment, and gives the message that is complete with it. A message beyond the limit is
dropped, and the segments that still come of it are out of place. -/
def push (r : Reassembly) (segment : Segment) (payload : Bytes) :
    Except Fault (Option Bytes) × Reassembly :=
  if segment.isStart = false ∧ r.active = false then (.error (.unexpectedSegment segment), r)
  else
    let before := if segment.isStart then [] else r.partly
    let size := before.length + payload.length
    if r.limit < size then (.error (.tooBig size r.limit), r.clear)
    else if segment.isStop then (.ok (some (before ++ payload)), r.clear)
    else (.ok none, { r with partly := before ++ payload, active := true })

end Reassembly

end FramedLink.Port
