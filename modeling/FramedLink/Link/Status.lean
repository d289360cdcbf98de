import FramedLink.Fault
import FramedLink.Framing.Framer

/-! # Link status

The counters of a link, and the fixed layout in which they are sent to a peer: a byte for the
version of the layout, then ten numbers of eight bytes each.
-/

namespace FramedLink

structure SentStatus where
  bytes : Nat := 0
  /-- Data frames that were acknowledged. -/
  dataFrames : Nat := 0
  controlFrames : Nat := 0
  /-- Data frames handed to the driver again. -/
  retransmissions : Nat := 0
  deriving DecidableEq, Repr, Inhabited

structure ReceivedStatus where
  bytes : Nat := 0
  /-- Data frames that were delivered. -/
  dataFrames : Nat := 0
  controlFrames : Nat := 0
  crcErrors : Nat := 0
  resyncs : Nat := 0
  /-- Data frames ahead of the expected one. -/
  idErrors : Nat := 0
  deriving DecidableEq, Repr, Inhabited

structure LinkStatus where
  tx : SentStatus := {}
  rx : ReceivedStatus := {}
  deriving DecidableEq, Repr, Inhabited

namespace LinkStatus

/-- The status with the framer's counters in it. -/
def withCounters (s : LinkStatus) (c : Framing.Counters) : LinkStatus :=
  { s with
    rx.bytes := c.bytes
    rx.controlFrames := c.controlFrames
    rx.crcErrors := c.crcErrors
    rx.resyncs := c.resyncs }

/-- The counters in the order in which they are written. -/
def toList (s : LinkStatus) : List Nat :=
  [s.tx.bytes, s.tx.dataFrames, s.tx.controlFrames, s.tx.retransmissions,
   s.rx.bytes, s.rx.dataFrames, s.rx.controlFrames, s.rx.crcErrors, s.rx.resyncs, s.rx.idErrors]

def version : UInt8 := 1

def counterSize : Nat := 8

def encodedSize : Nat := 1 + 10 * counterSize

/-- The bytes that stand for a status. -/
def toBytes (s : LinkStatus) : Bytes :=
  version :: s.toList.flatMap (Bytes.ofNatLE counterSize)

/-- The status at the front of `bytes`, whatever its version. -/
def ofBytes (bytes : Bytes) : Except Fault LinkStatus :=
  if bytes.length < encodedSize then .error (.bufferTooSmall encodedSize bytes.length)
  else
    let counter (place : Nat) :=
      Bytes.toNatLE ((bytes.drop (1 + place * counterSize)).take counterSize)
    .ok
      { tx := ⟨counter 0, counter 1, counter 2, counter 3⟩
        rx := ⟨counter 4, counter 5, counter 6, counter 7, counter 8, counter 9⟩ }

@[simp] theorem length_toBytes (s : LinkStatus) : s.toBytes.length = encodedSize := by
  simp [toBytes, toList, encodedSize, counterSize]

end LinkStatus

end FramedLink
