import FramedLink.Checksum
import FramedLink.Frame.Header

/-! # Frames and their images

The image of a frame is the string of bytes that stands for it on the wire. `encode` gives the
image of a frame whose fields fit; `decode` reads the frame at the front of a string of bytes. A
checksum covers everything behind the two start bytes.
-/

namespace FramedLink

open FramedLink.Frame

structure DataFrame where
  id : Nat
  metadata : Nat
  payload : Bytes
  deriving DecidableEq, Repr

namespace DataFrame

def header (f : DataFrame) : DataHeader := ⟨f.id, f.metadata, f.payload.length⟩

/-- The bytes that stand for the frame on the wire. -/
def image (f : DataFrame) : Bytes :=
  let headed := f.header.toBytes ++ f.payload
  headed ++ Checksum.trailer (headed.drop 2)

def encode (f : DataFrame) : Except Fault Bytes := do
  let _ ← DataHeader.make f.id f.metadata f.payload.length
  return f.image

/-- The number of bytes in the image, and `out` with the image written over its start. -/
def encodeInto (f : DataFrame) (out : Bytes) : Except Fault (Nat × Bytes) := do
  let header ← DataHeader.make f.id f.metadata f.payload.length
  if out.length < header.frameSize then
    throw (.bufferTooSmall header.frameSize out.length)
  return (header.frameSize, out.overlay f.image)

@[simp] theorem length_image (f : DataFrame) : f.image.length = f.payload.length + overhead := by
  simp [image, headerSize, overhead, footerSize]
  omega

end DataFrame

namespace ControlFrame

def image (f : ControlFrame) : Bytes :=
  f.header ++ Checksum.trailer (f.header.drop 2)

def encode (type : FrameType) (id : Nat) : Except Fault Bytes := do
  let frame ← make type id
  return frame.image

@[simp] theorem length_image (f : ControlFrame) : f.image.length = controlSize := by
  simp [image, controlSize]

end ControlFrame

inductive Frame where
  | data (frame : DataFrame)
  | control (frame : ControlFrame)
  deriving DecidableEq, Repr

namespace Frame

/-- The fields of a frame fit into their bits. -/
def Valid : Frame → Prop
  | data f => f.header.Valid
  | control f => f.id ≤ maxId

instance : (f : Frame) → Decidable f.Valid
  | data f => inferInstanceAs (Decidable f.header.Valid)
  | control f => inferInstanceAs (Decidable (f.id ≤ maxId))

def image : Frame → Bytes
  | data f => f.image
  | control f => f.image

def size : Frame → Nat
  | data f => overhead + f.payload.length
  | control _ => controlSize

@[simp] theorem length_image (f : Frame) : f.image.length = f.size := by
  cases f with
  | data f => simp [image, size, Nat.add_comm]
  | control f => simp [image, size]

theorem length_image_le {f : Frame} (valid : f.Valid) : f.image.length ≤ maxSize := by
  rw [length_image]
  cases f with
  | data f =>
    simp only [Valid, DataHeader.Valid, DataFrame.header] at valid
    simp only [size, maxSize]
    omega
  | control => exact (by decide : controlSize ≤ maxSize)

/-- Refuses a checksum that is not the one of the bytes it covers. -/
def checkSum (covered trailer : Bytes) : Except Fault Unit :=
  let computed := Checksum.crc32 0 covered
  let found := UInt32.ofNat (Bytes.toNatLE trailer)
  if computed = found then .ok () else .error (.checksumMismatch computed found)

/-- Refuses a string of fewer than `needed` bytes. -/
def checkLength (needed : Nat) (bytes : Bytes) : Except Fault Unit :=
  if (bytes.take needed).length < needed then .error (.bufferTooSmall needed bytes.length)
  else .ok ()

/-- The frame whose image is at the front of `bytes`. -/
def decode (bytes : Bytes) : Except Fault Frame := do
  checkLength controlSize bytes
  match ControlFrame.ofHeader bytes with
  | .ok frame =>
    checkSum ((bytes.drop 2).take 2) ((bytes.drop 4).take 4)
    return control frame
  | .error _ =>
    let header ← DataHeader.ofBytes bytes
    checkLength header.frameSize bytes
    let covered := (bytes.drop 2).take (headerSize - 2 + header.length)
    checkSum covered ((bytes.drop (headerSize + header.length)).take footerSize)
    return data ⟨header.id, header.metadata, (bytes.drop headerSize).take header.length⟩

theorem checkLength_eq_ok_iff {needed : Nat} {bytes : Bytes} :
    checkLength needed bytes = .ok () ↔ needed ≤ bytes.length := by
  unfold checkLength
  simp only [List.length_take]
  split <;> simp <;> omega

end Frame

end FramedLink
