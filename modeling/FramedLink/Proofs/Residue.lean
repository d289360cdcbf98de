import Mathlib.Logic.Function.Iterate
import FramedLink.Proofs.Decoding

/-! # The residue of a frame

The register that takes in the covered bytes of a frame and then its checksum ends in the same
state for every frame, the residue. Two strings of bytes that bring the register from one state to
another differ in more than four bytes in a row, or not at all: whatever damage keeps the residue is
longer than a checksum.
-/

namespace FramedLink.Checksum

/-! ## One bit -/

/-- The bit of a register at a place. -/
def bit (register : UInt32) (place : Nat) : Bool := register.toNat.testBit place

theorem eq_of_bit {r s : UInt32} (same : ∀ place, bit r place = bit s place) : r = s :=
  UInt32.toNat_inj.mp (Nat.eq_of_testBit_eq same)

@[simp] theorem bit_xor (r s : UInt32) (place : Nat) :
    bit (r ^^^ s) place = (bit r place ^^ bit s place) := by
  simp [bit]

theorem bit_ofNat {n : Nat} (small : n < 2 ^ 32) (place : Nat) :
    bit (UInt32.ofNat n) place = n.testBit place := by
  rw [bit, UInt32.toNat_ofNat_of_lt' small]

private theorem bit_beyond (r : UInt32) : bit r 32 = false :=
  Nat.testBit_lt_two_pow r.toNat_lt

private theorem lowest_set (r : UInt32) : r &&& 1 = 1 ↔ bit r 0 = true := by
  rw [← UInt32.toNat_inj, UInt32.toNat_and, bit, Nat.testBit_zero]
  simp

/-- A bit moves down, and where the lowest one leaves, the polynomial comes in. -/
theorem bit_shift (r : UInt32) (place : Nat) :
    bit (shift r) place = (bit r (place + 1) ^^ (bit r 0 && bit polynomial place)) := by
  have moved : bit (r >>> 1) place = bit r (place + 1) := by
    simp [bit, Nat.add_comm]
  unfold shift
  split
  · next set => rw [bit_xor, moved, (lowest_set r).mp set, Bool.true_and]
  · next clear =>
    have low : bit r 0 = false := by
      rwa [lowest_set, Bool.not_eq_true] at clear
    rw [moved, low, Bool.false_and, Bool.xor_false]

/-- The highest bit of the polynomial tells which bit has left. -/
theorem shift_injective : Function.Injective shift := by
  intro r s same
  have bits (place : Nat) := congrArg (bit · place) same
  simp only [bit_shift] at bits
  have left : bit r 0 = bit s 0 := by
    have highest := bits 31
    rw [bit_beyond, bit_beyond] at highest
    simpa [show bit polynomial 31 = true by decide] using highest
  apply eq_of_bit
  intro place
  cases place with
  | zero => exact left
  | succ place =>
    have moved := bits place
    rwa [left, Bool.xor_left_inj] at moved

/-- What comes in behind a shift can as well come in one place higher before it. -/
theorem shift_xor (r : UInt32) {n : Nat} (room : 2 * n < 2 ^ 32) :
    shift r ^^^ UInt32.ofNat n = shift (r ^^^ UInt32.ofNat (2 * n)) := by
  have lowest : bit (UInt32.ofNat (2 * n)) 0 = false := by
    rw [bit_ofNat room, Nat.testBit_zero]
    simp
  have raised (place : Nat) :
      bit (UInt32.ofNat (2 * n)) (place + 1) = bit (UInt32.ofNat n) place := by
    rw [bit_ofNat room, bit_ofNat (by omega), Nat.testBit_succ,
      Nat.mul_div_cancel_left n Nat.two_pos]
  apply eq_of_bit
  intro place
  simp only [bit_xor, bit_shift, lowest, raised, Bool.xor_false]
  cases bit r (place + 1) <;> cases bit (UInt32.ofNat n) place <;> simp

private theorem iterate_shift_xor (count : Nat) (r : UInt32) {n : Nat}
    (room : 2 ^ count * n < 2 ^ 32) :
    shift^[count] r ^^^ UInt32.ofNat n = shift^[count] (r ^^^ UInt32.ofNat (2 ^ count * n)) := by
  induction count generalizing n with
  | zero => simp
  | succ count ih =>
    have more : 2 ^ (count + 1) * n = 2 ^ count * (2 * n) := by rw [Nat.pow_succ, Nat.mul_assoc]
    rw [more] at room ⊢
    have one : 2 * n < 2 ^ 32 :=
      Nat.lt_of_le_of_lt (Nat.le_mul_of_pos_left _ (Nat.two_pow_pos count)) room
    rw [Function.iterate_succ_apply', shift_xor _ one, ih room, Function.iterate_succ_apply']

/-! ## A few bytes -/

/-- The bytes as one word, the first of them in its lowest bits. -/
def word (bytes : Bytes) : UInt32 := UInt32.ofNat (Bytes.toNatLE bytes)

theorem toNatLE_lt {bytes : Bytes} (few : bytes.length ≤ 4) : Bytes.toNatLE bytes < 2 ^ 32 := by
  have whole := Bytes.toNatLE_ofNatLE bytes.length (Bytes.toNatLE bytes)
  rw [Bytes.ofNatLE_toNatLE] at whole
  rw [whole]
  calc Bytes.toNatLE bytes % 256 ^ bytes.length
      < 256 ^ bytes.length := Nat.mod_lt _ (Nat.pow_pos (by decide))
    _ ≤ 256 ^ 4 := Nat.pow_le_pow_right (by decide) few

private theorem toNat_word {bytes : Bytes} (few : bytes.length ≤ 4) :
    (word bytes).toNat = Bytes.toNatLE bytes :=
  UInt32.toNat_ofNat_of_lt' (toNatLE_lt few)

private theorem word_ofNatLE (r : UInt32) : word (Bytes.ofNatLE 4 r.toNat) = r := by
  have small : r.toNat < 256 ^ 4 := r.toNat_lt
  rw [word, Bytes.toNatLE_ofNatLE_of_lt small, UInt32.ofNat_toNat]

private theorem word_cons (byte : UInt8) {rest : Bytes} (few : (byte :: rest).length ≤ 4) :
    word (byte :: rest) = byte.toUInt32 ^^^ UInt32.ofNat (2 ^ 8 * Bytes.toNatLE rest) := by
  have small := toNatLE_lt few
  have split : Bytes.toNatLE (byte :: rest) = 2 ^ 8 * Bytes.toNatLE rest + byte.toNat := by
    exact Nat.add_comm _ _
  apply eq_of_bit
  intro place
  rw [bit_xor, word, bit_ofNat small, bit_ofNat (by omega), split,
    Nat.testBit_two_pow_mul_add _ byte.toNat_lt, Nat.testBit_two_pow_mul]
  by_cases low : place < 8
  · have none : decide (8 ≤ place) = false := decide_eq_false (Nat.not_le_of_lt low)
    rw [if_pos low, none, Bool.false_and, Bool.xor_false]
    rfl
  · have high : byte.toNat.testBit place = false :=
      Nat.testBit_lt_two_pow (Nat.lt_of_lt_of_le byte.toNat_lt
        (Nat.pow_le_pow_right Nat.two_pos (Nat.le_of_not_lt low)))
    simp [low, bit, high, Nat.le_of_not_lt low]

theorem eq_of_word {front back : Bytes} (long : front.length = back.length)
    (few : front.length ≤ 4) (same : word front = word back) : front = back := by
  have number : Bytes.toNatLE front = Bytes.toNatLE back := by
    rw [← toNat_word few, same, toNat_word (long ▸ few)]
  rw [← Bytes.ofNatLE_toNatLE front, number, long, Bytes.ofNatLE_toNatLE]

/-- Up to four bytes can as well come into the register at once. -/
theorem foldl_absorb (r : UInt32) {bytes : Bytes} (few : bytes.length ≤ 4) :
    bytes.foldl absorb r = shift^[8 * bytes.length] (r ^^^ word bytes) := by
  induction bytes generalizing r with
  | nil => simp [word, Bytes.toNatLE]
  | cons byte rest ih =>
    have small := toNatLE_lt few
    have room : 2 ^ 8 * Bytes.toNatLE rest < 2 ^ 32 := by
      rw [Bytes.toNatLE] at small
      omega
    have first : absorb r byte = shift^[8] (r ^^^ byte.toUInt32) := rfl
    rw [List.foldl_cons, ih _ (Nat.le_of_succ_le few), first, word, iterate_shift_xor 8 _ room,
      ← Function.iterate_add_apply, word_cons byte few, List.length_cons, UInt32.xor_assoc,
      Nat.mul_succ]

/-! ## Strings of bytes -/

private theorem absorb_injective (byte : UInt8) : Function.Injective (absorb · byte) := by
  intro r s same
  have before : r ^^^ byte.toUInt32 = s ^^^ byte.toUInt32 :=
    shift_injective.iterate 8 same
  exact (UInt32.xor_left_inj _).mp before

private theorem foldl_absorb_injective (bytes : Bytes) :
    Function.Injective (bytes.foldl absorb ·) := by
  induction bytes with
  | nil => exact Function.injective_id
  | cons byte rest ih => exact ih.comp (absorb_injective byte)

/-- Strings that bring the register from one state to the same other one are the same, if all that
differs lies within four bytes. -/
theorem eq_of_foldl_absorb (r : UInt32) (front back : Bytes) {one other : Bytes}
    (long : one.length = other.length) (few : one.length ≤ 4)
    (same : (front ++ one ++ back).foldl absorb r = (front ++ other ++ back).foldl absorb r) :
    one = other := by
  simp only [List.foldl_append] at same
  have within := foldl_absorb_injective back same
  have thisWay := foldl_absorb (front.foldl absorb r) few
  have otherWay := foldl_absorb (front.foldl absorb r) (long ▸ few : other.length ≤ 4)
  rw [thisWay, otherWay, long] at within
  have whole := shift_injective.iterate _ within
  exact eq_of_word long few ((UInt32.xor_right_inj _).mp whole)

/-- The state of the register behind any bytes and their checksum. -/
def residue : UInt32 := shift^[32] (~~~ 0)

theorem foldl_absorb_trailer (covered : Bytes) :
    (covered ++ trailer covered).foldl absorb (~~~ 0) = residue := by
  have four := length_trailer covered
  rw [List.foldl_append, foldl_absorb _ (Nat.le_of_eq four), four, trailer, word_ofNatLE, crc32,
    UInt32.xor_not, UInt32.xor_self, residue]

end FramedLink.Checksum
