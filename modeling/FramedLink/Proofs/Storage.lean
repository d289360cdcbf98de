import FramedLink.Proofs.Incidents
import FramedLink.Proofs.Resynchronisation

/-! # The storage of a framer

A framer examines each byte to the end before it stores the next one. It gets there although it goes
back to the start of its buffer again and again, the bytes that are kept are always fewer than those
of the largest frame, and whatever it looks at on the way is there: `examines_uses`.
-/

namespace FramedLink.Framing

namespace Framer

open FramedLink.Frame

/-- What the framer looks at with the byte at its position is there. Where the first eight bytes are
complete, they are a header of one kind or the other; where a frame is complete, its header can
still be read, and there is a checksum behind the header and the payload. -/
structure Supplied (f : Framer) : Prop where
  storage : f.buffer.length ≤ f.capacity
  header : f.stage = .header → f.position + 1 = headerSize →
    controlSize ≤ f.buffer.length ∧ headerSize ≤ f.buffer.length ∧
      ((∃ frame, ControlFrame.ofHeader (f.buffer.take controlSize) = .ok frame) ∨
        ∃ header, DataHeader.ofBytes (f.buffer.take headerSize) = .ok header)
  rest : f.stage = .rest → f.position + 1 = f.frameSize →
    footerSize ≤ f.frameSize ∧ headerSize ≤ f.frameSize - footerSize ∧
      f.frameSize ≤ f.buffer.length ∧
      ∃ header, DataHeader.ofBytes (f.buffer.take headerSize) = .ok header ∧
        header.frameSize = f.frameSize

/-- There is room for another byte behind those that are kept, and all of these were examined. -/
structure Rests (f : Framer) : Prop where
  examined : f.position = f.buffer.length
  short : f.buffer.length < maxSize
  storage : maxSize ≤ f.capacity

/-- After so many bytes were examined, some of them again and again, there is none left to be
examined; each time, what the framer looks at is there. -/
inductive Examines : Framer → Nat → Framer → Prop where
  | done {f : Framer} (last : f.position = f.buffer.length) : Examines f 0 f
  | next {f g : Framer} {byte : UInt8} {turns : Nat} (here : f.buffer[f.position]? = some byte)
      (supplied : f.Supplied) (later : Examines (f.examineNext byte).1 turns g) :
      Examines f (turns + 1) g

/-! ## What is kept -/

/-- What the framer knows is true, and its buffer lies in its storage. -/
structure Contained (f : Framer) : Prop where
  consistent : f.Consistent
  inside : f.position ≤ f.buffer.length
  short : f.buffer.length ≤ maxSize
  storage : maxSize ≤ f.capacity

theorem Settled.rests {f : Framer} (settled : f.Settled) (storage : maxSize ≤ f.capacity) :
    f.Rests where
  examined := settled.position
  short := by
    by_contra long
    obtain ⟨finding, found, -⟩ := examine_of_long (Nat.le_of_not_lt long)
    rw [settled.undecided] at found
    cases found
  storage := storage

theorem Settled.store {f : Framer} (settled : f.Settled) (storage : maxSize ≤ f.capacity)
    (byte : UInt8) : { f with buffer := f.buffer ++ [byte] }.Contained where
  consistent := settled.consistent.append [byte]
  inside := settled.inside [byte]
  short := by
    rw [List.length_append]
    exact (settled.rests storage).short
  storage := storage

/-! ## What is examined -/

/-- Twice the most bytes that can still be examined: for each byte that is dropped, all the others
are examined again. -/
def left (f : Framer) : Nat := f.buffer.length * (f.buffer.length + 1) - 2 * f.position

private theorem left_le {f : Framer} (short : f.buffer.length ≤ maxSize) :
    f.left ≤ maxSize * (maxSize + 1) :=
  Nat.le_trans (Nat.sub_le _ _) (Nat.mul_le_mul short (Nat.add_le_add_right short 1))

private theorem left_of_lt {f g : Framer} (more : f.position < f.buffer.length)
    (less : g.buffer = f.buffer ∧ g.position = f.position + 1 ∨
      g.buffer.length < f.buffer.length) : g.left + 2 ≤ f.left := by
  obtain ⟨n, length⟩ := Nat.exists_eq_succ_of_ne_zero (Nat.ne_zero_of_lt more)
  have square : f.buffer.length * (f.buffer.length + 1) = (n + 1) * n + (n + 1) * 2 := by
    rw [length]
    exact Nat.mul_add (n + 1) n 2
  unfold left
  rcases less with ⟨buffer, position⟩ | dropped
  · rw [buffer, position]
    omega
  · have fewer : g.buffer.length * (g.buffer.length + 1) ≤ (n + 1) * n := by
      rw [Nat.mul_comm (n + 1)]
      exact Nat.mul_le_mul (by omega) (by omega)
    omega

namespace Contained

variable {f : Framer}

theorem supplied (h : f.Contained) (more : f.position < f.buffer.length) : f.Supplied where
  storage := Nat.le_trans h.short h.storage
  header stage full := by
    have known := h.consistent
    simp only [Consistent, stage] at known
    have long : headerSize ≤ f.buffer.length := by omega
    rw [ControlFrame.ofHeader_take long, DataHeader.ofBytes_take long]
    exact ⟨long, long, known.1.reads_header long⟩
  rest stage full := by
    have known := h.consistent
    simp only [Consistent, stage] at known
    obtain ⟨header, read, size, behind, -⟩ := known
    have parts : f.frameSize = headerSize + footerSize + header.length := size
    refine ⟨by omega, by omega, by omega, header, ?_, size.symm⟩
    rw [DataHeader.ofBytes_take (DataHeader.length_of_ofBytes read), read]

/-- The buffer stays in its storage while one byte is examined, and less is left to be done. -/
theorem examineNext (h : f.Contained) {byte : UInt8} (here : f.buffer[f.position]? = some byte) :
    (f.examineNext byte).1.Contained ∧ (f.examineNext byte).1.left + 2 ≤ f.left := by
  have more : f.position < f.buffer.length := (List.getElem?_eq_some_iff.mp here).1
  have progress := progress_examineNext h.consistent here
  generalize f.examineNext byte = result at progress ⊢
  cases progress with
  | @further g buffer account capacity position consistent =>
    refine ⟨⟨consistent, ?_, buffer ▸ h.short, capacity ▸ h.storage⟩,
      left_of_lt more (.inl ⟨buffer, position⟩)⟩
    rw [buffer, position]
    exact more
  | @found finding at_front =>
    have dropped : (f.pass finding).1.buffer.length < f.buffer.length := by
      have some := finding.length_pos
      simp only [pass, discard, List.length_drop]
      omega
    exact ⟨⟨.inl rfl, Nat.zero_le _, Nat.le_trans (Nat.le_of_lt dropped) h.short, h.storage⟩,
      left_of_lt more (.inr dropped)⟩

theorem examines (h : f.Contained) : ∃ turns, 2 * turns ≤ f.left ∧
    Examines f turns f.examineAll.1 := by
  induction f using examineAll.induct with
  | case1 f more examined last notices after ih =>
    have here : f.buffer[f.position]? = some f.buffer[f.position] := List.getElem?_eq_getElem more
    obtain ⟨contained, less⟩ := h.examineNext here
    obtain ⟨turns, few, later⟩ := ih contained
    have all : 2 * (turns + 1) ≤ f.left := Nat.le_trans (Nat.add_le_add_right few 2) less
    rw [examineAll, dif_pos more]
    exact ⟨turns + 1, all, .next here (h.supplied more) later⟩
  | case2 f done =>
    rw [examineAll, dif_neg done]
    exact ⟨0, Nat.zero_le _, .done (Nat.le_antisymm h.inside (Nat.le_of_not_lt done))⟩

end Contained

/-! ## The stream -/

theorem capacity_uses {f : Framer} (settled : f.Settled) (before : List Use) :
    (f.uses before).1.capacity = f.capacity := by
  induction before generalizing f with
  | nil => rfl
  | cons use later ih =>
    have same : (f.use use).1.capacity = f.capacity := by
      cases use with
      | receive chunk => exact (reads_receive settled chunk).capacity
      | reset => rfl
      | clearCounters => rfl
    exact (ih (settled_use settled use)).trans same

private theorem receiveBytes_append (f : Framer) (front back : Bytes) :
    (f.receiveBytes (front ++ back)).1 = ((f.receiveBytes front).1.receiveBytes back).1 := by
  induction front generalizing f with
  | nil => rfl
  | cons byte rest ih => exact ih _

/-- Whatever was done with a framer, it has room for each byte of a chunk, examines what is there
until nothing is left, and then has room for the next byte. -/
theorem examines_uses (capacity : Nat) (before : List Use) (front : Bytes) (byte : UInt8)
    (back : Bytes) :
    let f := ((ofCapacity capacity).uses before).1
    let chunk := front ++ byte :: back
    let g := ((f.withBytes (f.counters.bytes + chunk.length)).receiveBytes front).1
    (f.receive chunk).1 = ((g.receiveByte byte).1.receiveBytes back).1 ∧
      g.Rests ∧ (g.receiveByte byte).1.Rests ∧
      ∃ turns, 2 * turns ≤ maxSize * (maxSize + 1) ∧
        Examines { g with buffer := g.buffer ++ [byte] } turns (g.receiveByte byte).1 := by
  intro f chunk g
  have start := settled_ofCapacity capacity
  have settled : f.Settled := settled_uses start before
  have storage : maxSize ≤ f.capacity :=
    (capacity_uses start before).symm ▸ Nat.le_max_right capacity maxSize
  have counted : (f.withBytes (f.counters.bytes + chunk.length)).Settled :=
    ⟨settled.consistent, settled.position⟩
  have read := reads_receiveBytes counted front
  have room : maxSize ≤ g.capacity := read.capacity.symm ▸ storage
  have one := reads_receiveByte read.settled byte
  have stored := read.settled.store room byte
  obtain ⟨turns, few, examined⟩ := stored.examines
  refine ⟨receiveBytes_append _ front (byte :: back), read.settled.rests room,
    one.settled.rests (one.capacity.symm ▸ room), turns, ?_, examined⟩
  exact Nat.le_trans few (left_le stored.short)

end Framer

end FramedLink.Framing
