import FramedLink.Frame.Header

/-! # The queue of control frames

Control frames wait here until the driver has room for them. There is no need to keep all: of two
cumulative acknowledgements in a row the newer one says everything, and when the queue is full the
oldest frame gives way.
-/

namespace FramedLink

structure ControlQueue where
  capacity : Nat
  /-- The frames that wait, oldest first. -/
  waiting : List ControlFrame := []
  deriving DecidableEq, Repr, Inhabited

namespace ControlQueue

/-- `f` says everything that the newest of the frames that wait says. -/
def supersedes (f : ControlFrame) (waiting : List ControlFrame) : Bool :=
  f.control = .ackAll && waiting.getLast?.any (·.control = .ackAll)

/-- The queue with `f` as its newest frame. -/
def push (q : ControlQueue) (f : ControlFrame) : ControlQueue :=
  if supersedes f q.waiting then { q with waiting := q.waiting.dropLast ++ [f] }
  else if q.capacity ≤ q.waiting.length then { q with waiting := q.waiting.tail ++ [f] }
  else { q with waiting := q.waiting ++ [f] }

def clear (q : ControlQueue) : ControlQueue := { q with waiting := [] }

theorem getLast?_push (q : ControlQueue) (f : ControlFrame) :
    (q.push f).waiting.getLast? = some f := by
  unfold push
  repeat' split
  all_goals simp

end ControlQueue

end FramedLink
