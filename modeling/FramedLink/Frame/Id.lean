import FramedLink.Frame.Limits

/-! # Frame ids

Frames are numbered round and round in eleven bits. Two numbers less than half a round apart are
ordered by the shorter way between them; at exactly half a round, the sign of their plain
difference is turned. Numbers with more bits stand for their lowest eleven.
-/

namespace FramedLink.FrameId

/-- How many ids there are. -/
def space : Nat := 2048

/-- The longest way on which two ids are still ordered for certain. -/
def reach : Nat := 1023

/-- How far `a` lies ahead of `b`, negative when it lies behind. -/
def distance (a b : Nat) : Int :=
  let plain : Int := (a % space : Nat) - (b % space : Nat)
  if plain > reach then plain - space
  else if plain < -reach then plain + space
  else plain

/-- The id `n` steps after `id`. -/
def advance (id n : Nat) : Nat := (id + n) % space

def next (id : Nat) : Nat := advance id 1

def prev (id : Nat) : Nat := advance id (space - 1)

theorem advance_lt (id n : Nat) : advance id n < space := Nat.mod_lt _ (by decide)

theorem next_lt (id : Nat) : next id < space := advance_lt id 1

theorem prev_lt (id : Nat) : prev id < space := advance_lt id _

theorem next_prev {id : Nat} (h : id < space) : next (prev id) = id := by
  simp only [next, prev, advance, space] at *
  omega

theorem prev_next {id : Nat} (h : id < space) : prev (next id) = id := by
  simp only [next, prev, advance, space] at *
  omega

@[simp] theorem distance_self (id : Nat) : distance id id = 0 := by
  simp only [distance, space, reach]
  omega

theorem distance_eq_zero_iff {a b : Nat} (ha : a < space) (hb : b < space) :
    distance a b = 0 ↔ a = b := by
  simp only [distance, space, reach] at *
  omega

theorem distance_comm (a b : Nat) : distance b a = -distance a b := by
  simp only [distance, space, reach]
  omega

end FramedLink.FrameId
