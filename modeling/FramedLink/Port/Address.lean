import FramedLink.Fault

/-! # Port addresses

The metadata of a data frame says for which port the frame is: the port in bits 0 to 5, the segment
marker in bits 6 and 7, and sixteen bits that belong to the port in bits 8 to 23.
-/

namespace FramedLink.Port

def maxPort : Nat := 63

def portCount : Nat := maxPort + 1

/-- Where a data frame goes. -/
structure Address where
  port : Nat
  segment : Segment
  /-- Sixteen bits that belong to the port. -/
  data : Nat
  deriving DecidableEq, Repr

namespace Address

/-- The fields of an address fit into their bits. -/
def Valid (a : Address) : Prop := a.port ≤ maxPort ∧ a.data < 0x10000

def make (port : Nat) (segment : Segment) (data : Nat) : Except Fault Address :=
  if maxPort < port then .error (.invalidPort port) else .ok ⟨port, segment, data⟩

def pack (a : Address) : Nat := a.port + a.segment.bits * 64 + a.data * 256

/-- The address in metadata; bits above the 24 are passed over. -/
def unpack (metadata : Nat) : Address :=
  ⟨metadata % 64, Segment.ofBits (metadata / 64), metadata / 256 % 0x10000⟩

theorem unpack_pack {a : Address} (h : a.Valid) : unpack a.pack = a := by
  obtain ⟨hp, hd⟩ := h
  simp only [maxPort] at hp
  have hs := a.segment.bits_lt
  have port : a.pack % 64 = a.port := by
    simp only [pack]
    omega
  have data : a.pack / 256 % 0x10000 = a.data := by
    simp only [pack]
    omega
  have marker : a.pack / 64 = a.segment.bits + 4 * a.data := by
    simp only [pack]
    omega
  have segment : Segment.ofBits (a.pack / 64) = a.segment := by
    rw [marker]
    have same : Segment.ofBits (a.segment.bits + 4 * a.data) = Segment.ofBits a.segment.bits := by
      simp only [Segment.ofBits, Nat.add_mul_mod_self_left]
    rw [same, Segment.ofBits_bits]
  simp only [unpack, port, data, segment]

theorem pack_le {a : Address} (h : a.Valid) : a.pack ≤ Frame.maxMetadata := by
  obtain ⟨hp, hd⟩ := h
  have hs := a.segment.bits_lt
  simp only [pack, Frame.maxMetadata, maxPort] at *
  omega

end Address

end FramedLink.Port
