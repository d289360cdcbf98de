import FramedLink.Link.Driver

/-! # A simulated driver

A wire has a clock that stands still until it is set, space that may be limited, and keeps the
frames it was handed until somebody takes them.
-/

namespace FramedLink.Simulation

structure Wire where
  now : Nat := 0
  /-- The bytes it still takes, if that is limited. -/
  budget : Option Nat := none
  /-- The frames that wait, newest first. -/
  outbox : List Bytes := []
  deriving DecidableEq, Repr, Inhabited

namespace Wire

instance : Driver Wire where
  send w bytes :=
    { w with budget := w.budget.map (· - bytes.length), outbox := bytes :: w.outbox }
  space w := w.budget.getD Driver.unlimited
  clock w := w.now

/-- The frames that wait, oldest first, and the wire without them. -/
def takeAll (w : Wire) : List Bytes × Wire := (w.outbox.reverse, { w with outbox := [] })

end Wire

end FramedLink.Simulation
