import Mathlib.Logic.Function.Basic
import FramedLink.Link
import FramedLink.Simulation.Exchange

/-! # Two links

Two links are joined by a line in each direction. A line passes frames on in their order and in
pieces of any size; it may lose frames and let noise in between them. What a link hands over to its
driver is put on its line.
-/

namespace FramedLink

open Simulation (Side)

/-- A driver together with the frames that it was handed and that have not arrived. -/
structure Line (δ : Type) where
  driver : δ
  /-- The frames, and noise between them, oldest first. -/
  items : List Bytes := []
  /-- How many bytes of the first one have arrived. -/
  arrived : Nat := 0
  deriving Repr

namespace Line

variable {δ : Type}

instance [Driver δ] : Driver (Line δ) where
  send l bytes := { l with driver := Driver.send l.driver bytes, items := l.items ++ [bytes] }
  space l := Driver.space l.driver
  clock l := Driver.clock l.driver

/-- The items that are complete within `count` bytes. -/
def complete : List Bytes → Nat → List Bytes
  | [], _ => []
  | item :: rest, count =>
    if item.length ≤ count then item :: complete rest (count - item.length) else []

/-- What is left of items after `count` bytes: those that are not complete, and how many bytes of
the first one are among the `count`. -/
def beyond : List Bytes → Nat → List Bytes × Nat
  | [], _ => ([], 0)
  | item :: rest, count =>
    if item.length ≤ count then beyond rest (count - item.length) else (item :: rest, count)

/-- The next `count` bytes, and the line without them. -/
def take (l : Line δ) (count : Nat) : Bytes × Line δ :=
  let (items, arrived) := beyond l.items (l.arrived + count)
  (((l.items.flatten).drop l.arrived).take count, { l with items, arrived })

/-- The items of which the last bytes are among the next `count`. -/
def completed (l : Line δ) (count : Nat) : List Bytes := complete l.items (l.arrived + count)

/-- Whether a place lies behind every byte that has arrived. -/
def isAhead (l : Line δ) (place : Nat) : Bool := l.arrived = 0 || 0 < place

/-- The line without an item, unless some bytes of it have arrived. -/
def lose (l : Line δ) (place : Nat) : Line δ :=
  if l.isAhead place then { l with items := l.items.eraseIdx place } else l

/-- The line with noise in front of an item, unless some bytes of it have arrived. -/
def disturb (l : Line δ) (place : Nat) (noise : Bytes) : Line δ :=
  if l.isAhead place then { l with items := l.items.insertIdx place noise } else l

end Line

/-- A link and the layer above it, in the state `υ`. -/
structure Station (δ υ ω : Type) where
  link : Link (Line δ) ω
  upper : υ

namespace Station

variable {δ υ ω : Type}

/-- The line on which the link puts what it hands over. -/
def line (s : Station δ υ ω) : Line δ := s.link.state.driver

def setLine (s : Station δ υ ω) (line : Line δ) : Station δ υ ω :=
  { s with link.state.driver := line }

/-- What has happened at the link, newest first. -/
def journal (s : Station δ υ ω) : List (Entry ω) := s.link.state.journal

end Station

/-- A layer above that does nothing. -/
def idleUpper : Upper Unit Unit := ⟨fun u _ => .done u, fun u _ _ => .done u⟩

/-- A station at either end. -/
abbrev Pair (δ υ ω : Type) := Side → Station δ υ ω

/-- What may happen to two links. -/
inductive Move (δ : Type) where
  /-- A data frame is sent. -/
  | send (side : Side) (metadata : Nat) (payload : Bytes)
  | process (side : Side)
  /-- The driver gets another state, with another clock and other space. -/
  | tune (side : Side) (driver : δ)
  /-- The next bytes from one side arrive at the other. -/
  | deliver (source : Side) (count : Nat)
  /-- Of what is on its way from one side, an item is lost. -/
  | lose (source : Side) (place : Nat)
  /-- Noise comes in between what is on its way from one side. -/
  | disturb (source : Side) (place : Nat) (noise : Bytes)
  | reset (side : Side)

namespace Pair

variable {δ υ ω : Type}

/-- Two links to which nothing has happened, with nothing on the lines. -/
def fresh (config : Side → Config) (driver : Side → δ) (upper : Side → υ) : Pair δ υ ω :=
  fun side => {
    link := {
      framer := .ofCapacity (config side).receiveStorage
      state := .ofConfig (config side) { driver := driver side } }
    upper := upper side }

/-- Two new links, if their configurations are fit. -/
def start (config : Side → Config) (driver : Side → δ) (upper : Side → υ) :
    Except Fault (Pair δ υ ω) := do
  let a ← Link.ofConfig (config .a) { driver := driver .a }
  let b ← Link.ofConfig (config .b) { driver := driver .b }
  return fun
    | .a => ⟨a, upper .a⟩
    | .b => ⟨b, upper .b⟩

def change (p : Pair δ υ ω) (side : Side) (f : Station δ υ ω → Station δ υ ω) : Pair δ υ ω :=
  Function.update p side (f (p side))

@[simp] theorem change_same (p : Pair δ υ ω) (side : Side)
    (f : Station δ υ ω → Station δ υ ω) : p.change side f side = f (p side) :=
  Function.update_self side _ p

theorem change_of_ne (p : Pair δ υ ω) {side other : Side} (h : other ≠ side)
    (f : Station δ υ ω → Station δ υ ω) : p.change side f other = p other :=
  Function.update_of_ne h _ p

variable [Driver δ]

def deliver (uppers : Side → Upper υ ω) (p : Pair δ υ ω) (source : Side) (count : Nat) :
    Pair δ υ ω :=
  let (bytes, line) := (p source).line.take count
  (p.change source (·.setLine line)).change source.other fun s =>
    let (upper, link) := s.link.receive (uppers source.other) s.upper bytes
    { link, upper }

def process (uppers : Side → Upper υ ω) (p : Pair δ υ ω) (side : Side) : Pair δ υ ω :=
  p.change side fun s =>
    let (upper, link) := s.link.process (uppers side) s.upper
    { link, upper }

def step (uppers : Side → Upper υ ω) (p : Pair δ υ ω) : Move δ → Pair δ υ ω
  | .send side metadata payload =>
    p.change side fun s => { s with link := (s.link.send metadata payload).2 }
  | .process side => p.process uppers side
  | .tune side driver => p.change side fun s => s.setLine { s.line with driver }
  | .deliver source count => p.deliver uppers source count
  | .lose source place => p.change source fun s => s.setLine (s.line.lose place)
  | .disturb source place noise => p.change source fun s => s.setLine (s.line.disturb place noise)
  | .reset side => p.change side fun s => { s with link := s.link.reset }

def run (uppers : Side → Upper υ ω) (p : Pair δ υ ω) (moves : List (Move δ)) : Pair δ υ ω :=
  moves.foldl (step uppers) p

end Pair

end FramedLink
