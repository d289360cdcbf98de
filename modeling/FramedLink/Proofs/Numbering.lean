import Mathlib.Algebra.Order.Group.Abs
import Mathlib.Algebra.Order.Group.Int
import Mathlib.Data.Int.ModEq
import FramedLink.Proofs.Outstanding

/-! # What ids stand for

Frames are numbered without end, and the id of a frame is what is left of its number. Two ids tell
how far apart two numbers are as long as these are less than half a round apart; at half a round
they tell it in one of the two directions. Steps along the ids are steps along the numbers, also
where the words that hold them overflow.
-/

namespace FramedLink.FrameId

/-! ## Distances -/

private theorem distance_modEq (a b : Nat) : distance a b ≡ a - b [ZMOD 2048] := by
  simp only [distance, space, reach, Int.ModEq]
  omega

theorem distance_bounded (a b : Nat) : -1024 ≤ distance a b ∧ distance a b ≤ 1024 := by
  simp only [distance, space, reach]
  omega

private theorem distance_of_near {x y : Nat} (near : |(x : Int) - y| ≤ 1023) :
    distance (x % 2048) (y % 2048) = x - y := by
  have rest (n : Nat) : ((n % 2048 : Nat) : Int) % space = n % space :=
    congrArg Nat.cast (Nat.mod_mod n 2048)
  obtain ⟨below, above⟩ := abs_le.mp near
  exact distance_eq (rest x) (rest y) below above

/-- At half a round the longer of the two plain differences is turned. -/
theorem distance_of_half {x y : Nat} (half : |(x : Int) - y| = 1024) :
    distance (x % 2048) (y % 2048) = x - y ↔ (x < y ↔ y % 2048 < x % 2048) := by
  have cases : (x : Int) - y = 1024 ∨ (x : Int) - y = -1024 := (abs_eq (by decide)).mp half
  clear half
  simp only [distance, space, reach]
  omega

private theorem near_of_distance {x y : Nat} (same : distance (x % 2048) (y % 2048) = x - y) :
    |(x : Int) - y| ≤ 1023 ∨ |(x : Int) - y| = 1024 := by
  have bounds := distance_bounded (x % 2048) (y % 2048)
  rw [same, ← abs_le] at bounds
  rcases lt_or_eq_of_le bounds with near | half
  · exact .inl (Int.le_of_lt_add_one near)
  · exact .inr half

/-- Ids tell the difference of two numbers exactly if it is less than half a round, or half a round
in the direction in which the ids fall. -/
theorem distance_eq_sub_iff (x y : Nat) :
    distance (x % 2048) (y % 2048) = x - y ↔
      |(x : Int) - y| ≤ 1023 ∨ |(x : Int) - y| = 1024 ∧ (x < y ↔ y % 2048 < x % 2048) := by
  constructor
  · intro same
    exact (near_of_distance same).imp_right fun half => ⟨half, (distance_of_half half).mp same⟩
  · rintro (near | ⟨half, direction⟩)
    · exact distance_of_near near
    · exact (distance_of_half half).mpr direction

/-! ## Steps -/

private theorem advance_mod (x n : Nat) : advance (x % 2048) n = (x + n) % 2048 :=
  Nat.mod_add_mod x 2048 n

/-- The id in the lowest eleven bits of a word. -/
def ofWord (word : UInt16) : UInt16 := word &&& 0x7FF

theorem toNat_ofWord (word : UInt16) : (ofWord word).toNat = word.toNat % 2048 := by
  rw [ofWord, UInt16.toNat_and]
  exact Nat.and_two_pow_sub_one_eq_mod word.toNat 11

private theorem toNat_ofWord_add (id n : UInt16) :
    (ofWord (id + n)).toNat = advance id.toNat n.toNat := by
  rw [toNat_ofWord, UInt16.toNat_add, advance, space]
  omega

private theorem toNat_ofWord_sub (id : UInt16) : (ofWord (id - 1)).toNat = prev id.toNat := by
  rw [toNat_ofWord, UInt16.toNat_sub, prev, advance, space, UInt16.toNat_one]
  omega

/-- Ids stand for numbers without end. -/
theorem stand_for_numbers :
    (∀ x y : Nat, distance (x % 2048) (y % 2048) = x - y ↔
      |(x : Int) - y| ≤ 1023 ∨ |(x : Int) - y| = 1024 ∧ (x < y ↔ y % 2048 < x % 2048)) ∧
    (∀ a b : UInt16,
      (-1024 ≤ distance a.toNat b.toNat ∧ distance a.toNat b.toNat ≤ 1024) ∧
      distance a.toNat b.toNat ≡ a.toNat - b.toNat [ZMOD 2048] ∧
      distance a.toNat b.toNat = -distance b.toNat a.toNat) ∧
    (∀ x n : Nat, advance (x % 2048) n = (x + n) % 2048) ∧
    (∀ id n : UInt16, (ofWord (id + n)).toNat = advance id.toNat n.toNat ∧
      (ofWord (id - 1)).toNat = prev id.toNat) ∧
    (∀ id : Fin 2048, (next id < 2048 ∧ prev id < 2048) ∧
      next (prev id) = id ∧ prev (next id) = id) :=
  ⟨distance_eq_sub_iff,
    fun a b => ⟨distance_bounded a.toNat b.toNat, distance_modEq a.toNat b.toNat,
      distance_comm b.toNat a.toNat⟩,
    advance_mod,
    fun id n => ⟨toNat_ofWord_add id n, toNat_ofWord_sub id⟩,
    fun id => ⟨⟨next_lt id, prev_lt id⟩, next_prev id.isLt, prev_next id.isLt⟩⟩

end FramedLink.FrameId
