import FramedLink.Frame.Id

/-! # The receiving side

Frames are delivered in the order of their ids only. The receiver knows the id it expects next, and
whether the peer has been asked for it already.
-/

namespace FramedLink

/-- What becomes of a data frame. -/
inductive Disposition where
  | accept
  /-- It has been delivered before. -/
  | duplicate
  /-- It lies ahead of the expected one; `nack` says that the peer is to be asked for that. -/
  | ahead (nack : Bool)
  /-- It lies too far ahead to mean anything. -/
  | beyond
  deriving DecidableEq, Repr

structure Receiver where
  /-- How far ahead a frame may lie. -/
  window : Nat
  /-- The next id to be delivered. -/
  expected : Nat := 0
  /-- The id that the peer was last asked for. -/
  asked : Option Nat := none
  deriving DecidableEq, Repr, Inhabited

namespace Receiver

def lastDelivered (r : Receiver) : Nat := FrameId.prev r.expected

/-- Whether the peer is to be asked for the expected frame now, and the receiver after asking. -/
def claimNack (r : Receiver) : Bool × Receiver :=
  if r.asked = some r.expected then (false, r) else (true, { r with asked := some r.expected })

def classify (r : Receiver) (id : Nat) : Disposition × Receiver :=
  let ahead := FrameId.distance id r.expected
  if ahead = 0 then (.accept, r)
  else if ahead < 0 then (.duplicate, r)
  else if ahead ≤ r.window then
    let (nack, r) := r.claimNack
    (.ahead nack, r)
  else (.beyond, r)

def accept (r : Receiver) : Receiver :=
  { r with expected := FrameId.next r.expected, asked := none }

def reset (r : Receiver) : Receiver := { window := r.window }

@[simp] theorem lastDelivered_accept {r : Receiver} (h : r.expected < FrameId.space) :
    r.accept.lastDelivered = r.expected := FrameId.prev_next h

@[simp] theorem expected_claimNack (r : Receiver) : r.claimNack.2.expected = r.expected := by
  unfold claimNack
  split <;> rfl

@[simp] theorem expected_classify (r : Receiver) (id : Nat) :
    (r.classify id).2.expected = r.expected := by
  unfold classify
  simp only
  repeat' split
  all_goals simp

end Receiver

end FramedLink
