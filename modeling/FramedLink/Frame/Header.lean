import FramedLink.Bytes
import FramedLink.Fault
import FramedLink.Frame.Id
import FramedLink.Frame.Type

/-! # Frame headers

The fields in front of a frame's payload and checksum. Both kinds of header begin with the two
start bytes and a byte that holds the type code above the three highest bits of the id.

    data     start1  start2  type|id  length-1  id  metadata (3 bytes, lowest first)
    control  start1  start2  type|id  id
-/

namespace FramedLink

open FramedLink.Frame

/-- The byte of the type and the highest bits of the id. -/
def FrameType.leadByte (type : FrameType) (id : Nat) : UInt8 :=
  UInt8.ofNat (type.code * 8 + id / 256 % 8)

/-- Refuses two bytes that start no frame. -/
def checkStart (b0 b1 : UInt8) : Except Fault Unit :=
  if b0 = start1 ∧ b1 = start2 then .ok ()
  else .error (.invalidStart (b0.toNat * 256 + b1.toNat))

structure DataHeader where
  id : Nat
  metadata : Nat
  length : Nat
  deriving DecidableEq, Repr

namespace DataHeader

/-- The fields of a header fit into their bits. -/
def Valid (h : DataHeader) : Prop :=
  h.id ≤ maxId ∧ h.metadata ≤ maxMetadata ∧ 0 < h.length ∧ h.length ≤ maxPayload

instance (h : DataHeader) : Decidable h.Valid := by
  unfold Valid
  infer_instance

/-- A header of these fields. Of several fields that do not fit, the first is named. -/
def make (id metadata length : Nat) : Except Fault DataHeader :=
  if maxId < id then .error (.invalidId id)
  else if maxMetadata < metadata then .error (.invalidMetadata metadata)
  else if length = 0 then .error .emptyPayload
  else if maxPayload < length then .error (.tooBig length maxPayload)
  else .ok ⟨id, metadata, length⟩

/-- The size of the whole frame. -/
def frameSize (h : DataHeader) : Nat := overhead + h.length

def toBytes (h : DataHeader) : Bytes :=
  [start1, start2, FrameType.data.leadByte h.id, UInt8.ofNat (h.length - 1), UInt8.ofNat h.id] ++
    Bytes.ofNatLE 3 h.metadata

/-- The header at the front of `bytes`. -/
def ofBytes (bytes : Bytes) : Except Fault DataHeader :=
  match bytes with
  | b0 :: b1 :: b2 :: b3 :: b4 :: b5 :: b6 :: b7 :: _ => do
    checkStart b0 b1
    let code := b2.toNat / 8
    if FrameType.ofCode? code = some .data then
      .ok ⟨b2.toNat % 8 * 256 + b4.toNat, Bytes.toNatLE [b5, b6, b7], b3.toNat + 1⟩
    else .error (.invalidType code)
  | short => .error (.bufferTooSmall headerSize short.length)

@[simp] theorem length_toBytes (h : DataHeader) : h.toBytes.length = headerSize := by
  simp [toBytes, headerSize]

theorem make_eq_ok_iff {id metadata length : Nat} {h : DataHeader} :
    make id metadata length = .ok h ↔ h = ⟨id, metadata, length⟩ ∧ h.Valid := by
  unfold make Valid
  constructor
  · intro made
    repeat' split at made
    all_goals cases made
    simp
    omega
  · rintro ⟨rfl, _, _, _, _⟩
    simp only at *
    rw [if_neg, if_neg, if_neg, if_neg] <;> omega

end DataHeader

/-- A control frame, which is its header and a checksum. -/
structure ControlFrame where
  control : Control
  id : Nat
  deriving DecidableEq, Repr

namespace ControlFrame

def make (type : FrameType) (id : Nat) : Except Fault ControlFrame :=
  match type with
  | .data => .error (.invalidType FrameType.data.code)
  | .control control => if maxId < id then .error (.invalidId id) else .ok ⟨control, id⟩

/-- The bytes before the checksum. -/
def header (f : ControlFrame) : Bytes :=
  [start1, start2, (FrameType.control f.control).leadByte f.id, UInt8.ofNat f.id]

/-- The control frame whose header is at the front of `bytes`. -/
def ofHeader (bytes : Bytes) : Except Fault ControlFrame :=
  match bytes with
  | b0 :: b1 :: b2 :: b3 :: _ => do
    checkStart b0 b1
    let code := b2.toNat / 8
    match FrameType.ofCode? code with
    | some (.control control) => .ok ⟨control, b2.toNat % 8 * 256 + b3.toNat⟩
    | _ => .error (.invalidType code)
  | short => .error (.bufferTooSmall 4 short.length)

@[simp] theorem length_header (f : ControlFrame) : f.header.length = 4 := rfl

end ControlFrame

end FramedLink
