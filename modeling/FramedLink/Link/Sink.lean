import FramedLink.Link.Driver

/-! # Sinks as drivers

A sink takes bytes as it likes: all of them, the first few, or none. A driver over a sink offers
it the rest of a frame until all is taken, goes on after an interruption, and gives the frame up
when the sink fails or takes nothing. To the peer a frame that was given up looks like a frame that
was lost, and it is sent again.
-/

namespace FramedLink

/-- What a sink does when it is offered bytes. -/
inductive Acceptance where
  /-- It takes at most this many, and fails if it takes none. -/
  | upTo (count : Nat)
  /-- It takes none now, but would if it were asked again. -/
  | interrupted
  | failure
  deriving DecidableEq, Repr

structure Sink where
  /-- What it does when it is offered bytes, one time after the other; then it takes everything. -/
  acceptances : List Acceptance := []
  /-- It fails to pass on what it took. -/
  flushFails : Bool := false
  written : Bytes := []
  offers : Nat := 0
  flushes : Nat := 0
  /-- The frames that were given up. -/
  errors : Nat := 0
  now : Nat := 0
  deriving DecidableEq, Repr, Inhabited

namespace Sink

/-- Offers bytes to a sink that does `acceptances`, until it has taken all of them or gives up; the
answer says whether it has taken all. -/
def offerAll : List Acceptance → Bytes → Sink → Bool × Sink
  | acceptances, [], s => (true, { s with acceptances })
  | [], data, s =>
    (true, { s with acceptances := [], written := s.written ++ data, offers := s.offers + 1 })
  | acceptance :: acceptances, data, s =>
    let s := { s with offers := s.offers + 1 }
    match acceptance with
    | .interrupted => offerAll acceptances data s
    | .failure | .upTo 0 => (false, { s with acceptances })
    | .upTo count =>
      offerAll acceptances (data.drop count) { s with written := s.written ++ data.take count }

/-- Tells the sink to pass on what it took, and whether it could. -/
def flush (s : Sink) : Bool × Sink := (!s.flushFails, { s with flushes := s.flushes + 1 })

def write (s : Sink) (data : Bytes) : Sink :=
  let (taken, s) := offerAll s.acceptances data s
  let (passed, s) := if taken then s.flush else (false, s)
  if passed then s else { s with errors := s.errors + 1 }

instance : Driver Sink where
  send := write
  space _ := Driver.unlimited
  clock := now

end Sink

end FramedLink
