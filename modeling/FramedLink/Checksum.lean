import FramedLink.Bytes

/-! # The frame checksum

CRC-32 with the reflected polynomial of IEEE 802.3. A checksum is carried on from an earlier one:
`crc32_append` says that the checksum of a concatenation is the second part's, seeded with the
first part's.
-/

namespace FramedLink.Checksum

/-- The generator polynomial, lowest degree in the highest bit. -/
def polynomial : UInt32 := 0xEDB88320

/-- One bit leaves the register; the polynomial comes in where that bit was set. -/
def shift (register : UInt32) : UInt32 :=
  if register &&& 1 = 1 then (register >>> 1) ^^^ polynomial else register >>> 1

/-- One byte enters the register, lowest bit first. -/
def absorb (register : UInt32) (byte : UInt8) : UInt32 :=
  shift (shift (shift (shift (shift (shift (shift (shift (register ^^^ byte.toUInt32))))))))

/-- The checksum of `data`, continued from the checksum `seed`; a new one starts from `0`. -/
def crc32 (seed : UInt32) (data : Bytes) : UInt32 :=
  ~~~ data.foldl absorb (~~~ seed)

@[simp] theorem crc32_nil (seed : UInt32) : crc32 seed [] = seed := by
  simp [crc32]

theorem crc32_append (seed : UInt32) (front back : Bytes) :
    crc32 seed (front ++ back) = crc32 (crc32 seed front) back := by
  simp [crc32]

/-- The checksum as it stands behind the bytes it covers. -/
def trailer (covered : Bytes) : Bytes :=
  Bytes.ofNatLE 4 (crc32 0 covered).toNat

@[simp] theorem length_trailer (covered : Bytes) : (trailer covered).length = 4 :=
  Bytes.length_ofNatLE 4 _

end FramedLink.Checksum
