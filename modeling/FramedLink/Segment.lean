/-! # Segment markers

A message that does not fit into one frame is cut into segments. Each carries two bits: the upper
one says that a message begins with it, the lower one that a message ends with it.
-/

namespace FramedLink

inductive Segment where
  /-- Neither first nor last. -/
  | middle
  /-- The last of several. -/
  | stop
  /-- The first of several. -/
  | start
  /-- A message by itself. -/
  | single
  deriving DecidableEq, Repr

namespace Segment

def bits : Segment → Nat
  | middle => 0
  | stop => 1
  | start => 2
  | single => 3

/-- The marker in the two lowest bits of `n`. -/
def ofBits (n : Nat) : Segment :=
  match n % 4 with
  | 0 => middle
  | 1 => stop
  | 2 => start
  | _ => single

def isStart (s : Segment) : Bool := s = start || s = single

def isStop (s : Segment) : Bool := s = stop || s = single

/-- The marker of a segment that is, or is not, the first and the last of its message. -/
def ofEnds (first last : Bool) : Segment :=
  match first, last with
  | true, true => single
  | true, false => start
  | false, true => stop
  | false, false => middle

def name : Segment → String
  | middle => "Middle"
  | stop => "Stop"
  | start => "Start"
  | single => "Single"

@[simp] theorem ofBits_bits (s : Segment) : ofBits s.bits = s := by
  cases s <;> rfl

theorem bits_ofBits (n : Nat) : (ofBits n).bits = n % 4 := by
  have cases4 : n % 4 = 0 ∨ n % 4 = 1 ∨ n % 4 = 2 ∨ n % 4 = 3 := by omega
  rcases cases4 with h | h | h | h <;> simp [ofBits, h, bits]

theorem bits_lt (s : Segment) : s.bits < 4 := by
  cases s <;> decide

@[simp] theorem isStart_ofEnds (first last : Bool) : (ofEnds first last).isStart = first := by
  cases first <;> cases last <;> rfl

@[simp] theorem isStop_ofEnds (first last : Bool) : (ofEnds first last).isStop = last := by
  cases first <;> cases last <;> rfl

end Segment

end FramedLink
