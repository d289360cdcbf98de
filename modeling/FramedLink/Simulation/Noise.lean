import FramedLink.Bytes

/-! # A noisy line

A line draws numbers from a linear congruential generator of 64 bits and leaves out the lowest
sixteen. By them it drops frames, flips bits, puts rubbish between frames, and cuts what is left
into pieces.
-/

namespace FramedLink.Simulation

structure Disturbance where
  /-- The frames dropped, of a hundred. -/
  dropPercent : Nat
  /-- One byte in so many has a bit flipped. -/
  flipOneIn : Nat
  /-- The frames with rubbish behind them, of a hundred. -/
  garbagePercent : Nat
  deriving DecidableEq, Repr

abbrev Line := StateM UInt64

namespace Line

def next : Line UInt64 := fun state =>
  let state := state * 6364136223846793005 + 1442695040888963407
  (state >>> 16, state)

def below (n : Nat) : Line Nat := do
  let drawn ← next
  return drawn.toNat % n

def disturb (d : Disturbance) (byte : UInt8) : Line UInt8 := do
  if (← below d.flipOneIn) = 0 then
    let bit ← below 8
    return byte ^^^ UInt8.ofNat (1 <<< bit)
  else return byte

def garbage : Nat → Line Bytes
  | 0 => return []
  | n + 1 => do
    let drawn ← below 256
    return UInt8.ofNat drawn :: (← garbage n)

/-- What is left of a frame, and the rubbish behind it. -/
def carryFrame (d : Disturbance) (frame : Bytes) : Line Bytes := do
  if (← below 100) < d.dropPercent then return []
  else
    let frame ← frame.mapM (disturb d)
    if (← below 100) < d.garbagePercent then
      let length ← below 20
      return frame ++ (← garbage (length + 1))
    else return frame

/-- Cuts bytes into pieces of 1 to 64; `fuel` bounds their number. -/
def cut : (fuel : Nat) → Bytes → Line (List Bytes)
  | 0, _ => return []
  | _, [] => return []
  | fuel + 1, bytes => do
    let size := (← below 64) + 1
    return bytes.take size :: (← cut fuel (bytes.drop size))

/-- What comes out of the line, piece by piece. -/
def carry (d : Disturbance) (frames : List Bytes) : Line (List Bytes) := do
  let bytes := (← frames.mapM (carryFrame d)).flatten
  cut bytes.length bytes

end Line

end FramedLink.Simulation
