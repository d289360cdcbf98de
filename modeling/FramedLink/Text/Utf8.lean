import FramedLink.Bytes

/-! # Text out of bytes that may not be text

Peers may answer with any bytes where text is expected. `readLossy` reads UTF-8 and puts one
replacement character for each stretch that starts like a character but is none: a stretch is as
long as some character still could go on from it, and at least one byte.
-/

namespace FramedLink.Text

/-- What stands for a stretch of bytes that is no character. -/
def replacement : Char := '\uFFFD'

/-- A character that has begun: how many bytes it is still owed, between which bounds the next of
them has to lie, and the bits read so far. -/
structure Begun where
  owed : Nat
  low : UInt8
  high : UInt8
  bits : Nat

/-- What a byte is where a character should begin. -/
inductive Lead where
  /-- A character by itself. -/
  | whole (char : Char)
  /-- The first byte of a longer character. -/
  | begun (state : Begun)
  /-- No character starts with it. -/
  | stray

/-- The bounds after the first byte leave out overlong forms, surrogates, and whatever lies above
the last code point. -/
def lead (b : UInt8) : Lead :=
  let bits (mask : Nat) := b.toNat % mask
  if b < 0x80 then .whole (Char.ofNat b.toNat)
  else if b < 0xC2 then .stray
  else if b < 0xE0 then .begun ⟨1, 0x80, 0xBF, bits 32⟩
  else if b = 0xE0 then .begun ⟨2, 0xA0, 0xBF, bits 16⟩
  else if b = 0xED then .begun ⟨2, 0x80, 0x9F, bits 16⟩
  else if b < 0xF0 then .begun ⟨2, 0x80, 0xBF, bits 16⟩
  else if b = 0xF0 then .begun ⟨3, 0x90, 0xBF, bits 8⟩
  else if b < 0xF4 then .begun ⟨3, 0x80, 0xBF, bits 8⟩
  else if b = 0xF4 then .begun ⟨3, 0x80, 0x8F, bits 8⟩
  else .stray

/-- What a byte read as a first byte gives: the characters it finishes, and the one it begins. -/
def start (b : UInt8) : List Char × Option Begun :=
  match lead b with
  | .whole char => ([char], none)
  | .begun state => ([], some state)
  | .stray => ([replacement], none)

/-- One byte. A byte that cannot go on with the character begun ends its stretch and is read
again as a first byte. -/
def step : Option Begun → UInt8 → List Char × Option Begun
  | none, b => start b
  | some state, b =>
    if state.low ≤ b ∧ b ≤ state.high then
      let bits := state.bits * 64 + b.toNat % 64
      if state.owed = 1 then ([Char.ofNat bits], none)
      else ([], some ⟨state.owed - 1, 0x80, 0xBF, bits⟩)
    else
      let (chars, next) := start b
      (replacement :: chars, next)

/-- The characters of the bytes that follow; a character still owed bytes at the end is none. -/
def readFrom : Option Begun → Bytes → List Char
  | none, [] => []
  | some _, [] => [replacement]
  | begun, b :: rest =>
    let (chars, next) := step begun b
    chars ++ readFrom next rest

def readLossy (bytes : Bytes) : String := String.ofList (readFrom none bytes)

def write (text : String) : Bytes := text.toUTF8.data.toList

example : readFrom none [0x61, 0xC3, 0xA9, 0xFF, 0xE2, 0x82, 0x41] =
    ['a', 'é', replacement, replacement, 'A'] := by decide

end FramedLink.Text
