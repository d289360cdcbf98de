/-! # Byte strings

What travels on a link is a list of bytes, first on the wire first. Numbers go into it least
significant byte first, in a fixed number of bytes.
-/

namespace FramedLink

/-- A string of bytes, first on the wire first. -/
abbrev Bytes := List UInt8

namespace Bytes

/-! ## Numbers -/

/-- The `width` bytes of `n`, least significant first; what does not fit is dropped. -/
def ofNatLE : Nat → Nat → Bytes
  | 0, _ => []
  | width + 1, n => UInt8.ofNat n :: ofNatLE width (n / 256)

/-- The number whose bytes these are, least significant first. -/
def toNatLE : Bytes → Nat
  | [] => 0
  | b :: rest => b.toNat + 256 * toNatLE rest

@[simp] theorem length_ofNatLE (width n : Nat) : (ofNatLE width n).length = width := by
  induction width generalizing n with
  | zero => rfl
  | succ width ih => simp [ofNatLE, ih]

theorem ofNatLE_toNatLE (bytes : Bytes) : ofNatLE bytes.length (toNatLE bytes) = bytes := by
  induction bytes with
  | nil => rfl
  | cons b rest ih =>
    have hb := b.toNat_lt
    have hq : (b.toNat + 256 * toNatLE rest) / 256 = toNatLE rest := by omega
    have hr : UInt8.ofNat (b.toNat + 256 * toNatLE rest) = b := by
      apply UInt8.toNat_inj.mp
      simp only [UInt8.toNat_ofNat']
      omega
    simp [ofNatLE, toNatLE, hq, hr, ih]

/-! ## Storage -/

/-- `block` with `data` copied over its start; what does not fit is left out. -/
def overlay (block data : Bytes) : Bytes :=
  data.take block.length ++ block.drop data.length

@[simp] theorem length_overlay (block data : Bytes) :
    (overlay block data).length = block.length := by
  simp only [overlay, List.length_append, List.length_take, List.length_drop]
  omega

theorem take_overlay {block data : Bytes} (h : data.length ≤ block.length) :
    (overlay block data).take data.length = data := by
  rw [overlay, List.take_of_length_le h, List.take_left]

/-! ## Pieces -/

/-- The bytes cut into pieces of `size`; the last piece may be shorter, and none is empty. -/
def pieces : Nat → Bytes → List Bytes
  | 0, _ => []
  | _, [] => []
  | more + 1, b :: rest => (b :: rest.take more) :: pieces (more + 1) (rest.drop more)
termination_by _ bytes => bytes.length
decreasing_by simp only [List.length_drop, List.length_cons]; omega

theorem flatten_pieces (more : Nat) (bytes : Bytes) :
    (pieces (more + 1) bytes).flatten = bytes := by
  induction h : bytes.length using Nat.strongRecOn generalizing bytes with
  | _ n ih =>
    subst h
    cases bytes with
    | nil => simp [pieces]
    | cons b rest =>
      have shorter : (rest.drop more).length < (b :: rest).length := by
        simp only [List.length_drop, List.length_cons]
        omega
      simp [pieces, ih _ shorter (rest.drop more) rfl]

end Bytes

end FramedLink
