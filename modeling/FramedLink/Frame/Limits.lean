/-! # Sizes and limits of frames

A data frame is an eight-byte header, 1 to 256 bytes of payload and a four-byte checksum. A
control frame is eight bytes in all. Both begin with the same two start bytes.
-/

namespace FramedLink.Frame

def start1 : UInt8 := 0x55

def start2 : UInt8 := 0x00

/-- The largest frame id: eleven bits. -/
def maxId : Nat := 2047

/-- The largest metadata of a data frame: 24 bits. -/
def maxMetadata : Nat := 0xFFFFFF

def maxPayload : Nat := 256

/-- The bytes before the payload, start bytes included. -/
def headerSize : Nat := 8

/-- The bytes of the checksum behind the payload. -/
def footerSize : Nat := 4

/-- What a data frame adds to its payload. -/
def overhead : Nat := headerSize + footerSize

def maxSize : Nat := maxPayload + overhead

def controlSize : Nat := 8

end FramedLink.Frame
