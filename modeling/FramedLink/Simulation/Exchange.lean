import FramedLink.Endpoint
import FramedLink.Simulation.Noise
import FramedLink.Simulation.Wire

/-! # Two endpoints and what is between them

An exchange has two endpoints over simulated drivers and carries frames from one to the other:
as they are, in another order and with bits flipped, or over noisy lines. It keeps one log of what
leaves either of them.
-/

namespace FramedLink.Simulation

open Port

inductive Side where
  | a
  | b
  deriving DecidableEq, Repr

def Side.other : Side → Side
  | a => b
  | b => a

abbrev Node (η ω : Type) := Endpoint Wire η ω

namespace Node

variable {η ω : Type}

/-- The frames that wait, oldest first, and the endpoint without them. -/
def takeOutbox (n : Node η ω) : List Bytes × Node η ω :=
  let (frames, driver) := n.link.state.driver.takeAll
  (frames, { n with link.state.driver := driver })

def setClock (n : Node η ω) (now : Nat) : Node η ω :=
  { n with link.state.driver.now := now }

def setBudget (n : Node η ω) (budget : Option Nat) : Node η ω :=
  { n with link.state.driver.budget := budget }

end Node

structure Exchange (η ω : Type) where
  a : Node η ω
  b : Node η ω
  /-- What has left an endpoint, newest first. -/
  log : List (Side × Action ω) := []

namespace Exchange

variable {η ω α : Type}

def node (x : Exchange η ω) : Side → Node η ω
  | .a => x.a
  | .b => x.b

/-- Does something with one endpoint, and enters what leaves it into the log. -/
def act (x : Exchange η ω) (side : Side) (f : Node η ω → α × Node η ω) : α × Exchange η ω :=
  let (value, n) := f (x.node side)
  let (trace, link) := n.link.takeTrace
  let n := { n with link }
  let log := trace.foldl (fun log action => (side, action) :: log) x.log
  (value, match side with | .a => { x with a := n, log } | .b => { x with b := n, log })

def change (x : Exchange η ω) (side : Side) (f : Node η ω → Node η ω) : Exchange η ω :=
  (x.act side fun n => ((), f n)).2

/-- The log since it was taken last, oldest first, and the exchange without it. -/
def takeLog (x : Exchange η ω) : List (Side × Action ω) × Exchange η ω :=
  (x.log.reverse, { x with log := [] })

def setClock (x : Exchange η ω) (now : Nat) : Exchange η ω :=
  { x with a := x.a.setClock now, b := x.b.setClock now }

def advanceClock (x : Exchange η ω) (time : Nat) : Exchange η ω :=
  { x with
    a := x.a.setClock (x.a.link.state.driver.now + time)
    b := x.b.setClock (x.b.link.state.driver.now + time) }

variable [Handler η ω]

/-- Gives pieces of a stream to an endpoint, one after the other. -/
def feed (x : Exchange η ω) (side : Side) (pieces : List Bytes) : Exchange η ω :=
  pieces.foldl (fun x piece => x.change side (·.receive piece)) x

/-! ## By hand -/

/-- Some bits of a byte of a frame, to be flipped. -/
structure Flip where
  frame : Nat
  place : Nat
  mask : UInt8
  deriving DecidableEq, Repr

structure Passage where
  /-- The places of the frames that arrive, in the order in which they do; all if there is none. -/
  order : Option (List Nat) := none
  flips : List Flip := []
  leading : Bytes := []
  deriving DecidableEq, Repr

/-- The frames with some bits flipped; what is not there is passed over. -/
def Flip.apply (frames : List Bytes) (f : Flip) : List Bytes :=
  frames.modify f.frame fun frame => frame.modify f.place (· ^^^ f.mask)

def Passage.carry (p : Passage) (frames : List Bytes) : Bytes :=
  let frames := p.flips.foldl Flip.apply frames
  let arriving :=
    match p.order with
    | none => frames
    | some order => order.filterMap (frames[·]?)
  p.leading ++ arriving.flatten

/-- Takes the frames that wait at one endpoint and gives what arrives of them to the other, in
pieces of `size` bytes or all at once. The number of bytes that arrive is given back. -/
def deliver (x : Exchange η ω) (source : Side) (p : Passage) (size : Option Nat) :
    Nat × Exchange η ω :=
  let (frames, x) := x.act source Node.takeOutbox
  let bytes := p.carry frames
  (bytes.length, x.feed source.other (bytes.pieces (size.getD bytes.length)))

/-! ## To rest -/

/-- Carries all frames to and fro until none wait, at most `rounds` times. The number of times is
given back, counted from `round`, if that was enough. -/
def settleFrom (round : Nat) : (rounds : Nat) → Exchange η ω → Option Nat × Exchange η ω
  | 0, x => (none, x)
  | rounds + 1, x =>
    let (fromA, x) := x.act .a Node.takeOutbox
    let (fromB, x) := x.act .b Node.takeOutbox
    if fromA = [] ∧ fromB = [] then (some round, x)
    else
      let x := x.feed .b [fromA.flatten]
      let x := x.feed .a [fromB.flatten]
      settleFrom (round + 1) rounds x

def settle (x : Exchange η ω) (rounds : Nat) : Option Nat × Exchange η ω := settleFrom 0 rounds x

/-! ## Over noisy lines -/

structure Letter where
  port : Nat
  data : Nat
  message : Bytes
  deriving DecidableEq, Repr

/-- Two noisy lines between the endpoints, and what is sent over them. -/
structure Noisy where
  disturbance : Disturbance
  lineAB : UInt64
  lineBA : UInt64
  /-- The messages that `a` has not sent yet. -/
  letters : List Letter
  stepTime : Nat

/-- Sends messages from `a`, up to the first that is refused; those left over are given back. -/
def post : List Letter → Exchange η ω → List Letter × Exchange η ω
  | [], x => ([], x)
  | letter :: rest, x =>
    match x.act .a (·.sendMessage letter.port letter.data letter.message) with
    | (.ok (), x) => post rest x
    | (.error _, x) => (letter :: rest, x)

/-- Carries the frames that wait at one endpoint over a line to the other. -/
def carryOver (x : Exchange η ω) (source : Side) (d : Disturbance) (line : UInt64) :
    UInt64 × Exchange η ω :=
  let (frames, x) := x.act source Node.takeOutbox
  let (pieces, line) := (Line.carry d frames).run line
  (line, x.feed source.other pieces)

def noisyStep (n : Noisy) (x : Exchange η ω) : Noisy × Exchange η ω :=
  let (letters, x) := post n.letters (x.advanceClock n.stepTime)
  let (lineAB, x) := x.carryOver .a n.disturbance n.lineAB
  let (lineBA, x) := x.carryOver .b n.disturbance n.lineBA
  let x := (x.change .a (·.process)).change .b (·.process)
  ({ n with letters, lineAB, lineBA }, x)

/-- Goes on step by step until every message is sent and acknowledged, at most `steps` times. The
number of steps is given back, counted from `step`. -/
def noisyFrom (step : Nat) : (steps : Nat) → Noisy → Exchange η ω → Nat × Noisy × Exchange η ω
  | 0, n, x => (step, n, x)
  | steps + 1, n, x =>
    let (n, x) := noisyStep n x
    if n.letters = [] ∧ x.a.link.inFlight = 0 ∧ x.b.link.inFlight = 0 then (step + 1, n, x)
    else noisyFrom (step + 1) steps n x

/-- Sends messages over noisy lines. The numbers of steps and of messages sent are given back. -/
def noisy (x : Exchange η ω) (n : Noisy) (steps : Nat) : (Nat × Nat) × Exchange η ω :=
  let (taken, left, x) := noisyFrom 0 steps n x
  ((taken, n.letters.length - left.letters.length), x)

end Exchange

end FramedLink.Simulation
