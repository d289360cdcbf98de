import Mathlib.Data.List.Forall2
import FramedLink.Proofs.Packet

/-! # Outstanding frames

The send window holds the images of a series of packets with places in a row. An answer to the
first frames of the epoch names one of these places by its id; as long as it is no further away
than ids reach, the window releases exactly the frames before it.
-/

namespace FramedLink

open FramedLink.Frame

/-- Places no further apart than ids reach are ordered by their ids. -/
theorem FrameId.distance_eq {a b : Nat} {x y : Int} (ha : (a : Int) % space = x % space)
    (hb : (b : Int) % space = y % space) (below : -reach ≤ x - y) (above : x - y ≤ reach) :
    distance a b = x - y := by
  simp only [distance, space, reach] at *
  omega

/-! ## Series of packets -/

namespace Packet

/-- The packets of frames with places in a row. -/
def series (epoch : Nat) : (first : Nat) → List (Nat × Bytes) → List Packet
  | _, [] => []
  | first, (metadata, payload) :: rest =>
    .data epoch first metadata payload :: series epoch (first + 1) rest

@[simp] theorem length_series (epoch first : Nat) (frames : List (Nat × Bytes)) :
    (series epoch first frames).length = frames.length := by
  induction frames generalizing first with
  | nil => rfl
  | cons frame rest ih => simp [series, ih]

theorem series_append (epoch first : Nat) (front back : List (Nat × Bytes)) :
    series epoch first (front ++ back) =
      series epoch first front ++ series epoch (first + front.length) back := by
  induction front generalizing first with
  | nil => rfl
  | cons frame rest ih =>
    simp only [List.cons_append, series, ih, List.length_cons]
    rw [Nat.add_right_comm, Nat.add_assoc]

theorem drop_series (epoch first n : Nat) (frames : List (Nat × Bytes)) :
    (series epoch first frames).drop n = series epoch (first + n) (frames.drop n) := by
  induction n generalizing first frames with
  | zero => rfl
  | succ n ih =>
    cases frames with
    | nil => rfl
    | cons frame rest =>
      simp only [series, List.drop_succ_cons, ih]
      rw [Nat.add_right_comm, Nat.add_assoc]

theorem mem_series {epoch first : Nat} {frames : List (Nat × Bytes)} {packet : Packet}
    (among : packet ∈ series epoch first frames) :
    ∃ place metadata payload, packet = .data epoch (first + place) metadata payload ∧
      frames[place]? = some (metadata, payload) := by
  induction frames generalizing first with
  | nil => cases among
  | cons frame rest ih =>
    rcases List.mem_cons.mp among with rfl | later
    · exact ⟨0, frame.1, frame.2, rfl, rfl⟩
    · obtain ⟨place, metadata, payload, rfl, here⟩ := ih later
      exact ⟨place + 1, metadata, payload, by rw [Nat.add_right_comm, Nat.add_assoc], by simpa⟩

end Packet

/-! ## What the window holds -/

/-- A frame of the window is the image of a packet. -/
structure Stores (f : Outgoing) (packet : Packet) : Prop where
  image : f.image = packet.image
  valid : packet.Valid
  id : ∃ frame : DataFrame, packet.frame = .data frame ∧ f.id = frame.id

theorem Stores.rewind {f : Outgoing} {packet : Packet} (h : Stores f packet) :
    Stores f.rewind packet := ⟨h.image, h.valid, h.id⟩

theorem Stores.markSent {f : Outgoing} {packet : Packet} (h : Stores f packet) (now : Nat) :
    Stores (f.markSent now) packet := ⟨h.image, h.valid, h.id⟩

/-- Frames that were handed over come before those that wait. -/
def SentFirst (frames : List Outgoing) : Prop :=
  frames.Pairwise fun f g => g.phase = .sent → f.phase = .sent

theorem pending_of_oldestSent?_eq_none {w : SendWindow} (first : SentFirst w.frames)
    (none : w.oldestSent? = none) : ∀ f ∈ w.frames, f.phase = .pending := by
  unfold SendWindow.oldestSent? at none
  cases frames : w.frames with
  | nil => exact nofun
  | cons oldest rest =>
    rw [frames] at none first
    have waits : oldest.phase ≠ .sent := by simpa using none
    intro f among
    cases phase : f.phase with
    | pending => rfl
    | sent =>
      rcases List.mem_cons.mp among with rfl | later
      · exact absurd phase waits
      · exact absurd ((List.pairwise_cons.mp first).1 f later phase) waits

/-- A window holds the frames of packets. -/
structure SendWindow.Holds (w : SendWindow) (held : List Packet) : Prop where
  stores : List.Forall₂ Stores w.frames held
  sentFirst : SentFirst w.frames
  fits : w.length ≤ w.capacity
  reaches : w.capacity ≤ FrameId.reach
  blocks : w.pool.blockSize = maxSize

namespace SendWindow

variable {w w' : SendWindow} {held : List Packet}

@[simp] theorem blockSize_releaseAll (p : Pool) (buffers : List Buffer) :
    (p.releaseAll buffers).blockSize = p.blockSize := by
  induction buffers generalizing p with
  | nil => rfl
  | cons b rest ih =>
    rw [Pool.releaseAll, List.foldl_cons]
    exact (ih _).trans (p.blockSize_release b)

theorem Holds.length_eq (h : w.Holds held) : w.length = held.length := h.stores.length_eq

theorem Holds.length_le (h : w.Holds held) : held.length ≤ FrameId.reach :=
  h.length_eq ▸ Nat.le_trans h.fits h.reaches

theorem Holds.push (h : w.Holds held) {id : Nat} {packet : Packet} (valid : packet.Valid)
    (ofId : ∃ frame : DataFrame, packet.frame = .data frame ∧ id = frame.id)
    (room : w.isFull = false) (pushed : w.push id packet.image = some w') :
    w'.Holds (held ++ [packet]) := by
  unfold SendWindow.push at pushed
  split at pushed
  · cases pushed
  · next buffer pool lent =>
    have blank : pool.blockSize = w.pool.blockSize ∧ buffer.capacity = w.pool.blockSize := by
      unfold Pool.acquire at lent
      split at lent
      · cases lent
      · cases lent
        exact ⟨rfl, List.length_replicate⟩
    have small : packet.image.length ≤ buffer.capacity := by
      rw [blank.2, h.blocks, Packet.image, length_image]
      obtain ⟨frame, same, -⟩ := ofId
      simp only [Packet.Valid, same, Frame.Valid, DataHeader.Valid, DataFrame.header] at valid
      simp only [same, size, maxSize]
      omega
    have stored : Stores
        { id, buffer := buffer.fill packet.image, place := w.entered } packet :=
      ⟨Buffer.contents_fill small, valid, ofId⟩
    simp only [isFull, decide_eq_false_iff_not, Nat.not_le] at room
    cases pushed
    refine ⟨List.rel_append h.stores (.cons stored .nil), ?_, ?_, h.reaches, blank.1.trans h.blocks⟩
    · refine List.pairwise_append.mpr ⟨h.sentFirst, List.pairwise_singleton _ _, ?_⟩
      intro f _ g among
      rw [List.mem_singleton.mp among]
      simp
    · simp only [length, List.length_append, List.length_singleton] at room ⊢
      omega

theorem Holds.split (h : w.Holds held) (n : Nat) :
    (w.split (w.frames.take n) (w.frames.drop n)).Holds (held.drop n) where
  stores := List.forall₂_drop n h.stores
  sentFirst := List.Pairwise.drop h.sentFirst
  fits := by
    have fits := h.fits
    simp only [length, SendWindow.split, List.length_drop] at fits ⊢
    omega
  reaches := h.reaches
  blocks := (blockSize_releaseAll _ _).trans h.blocks

theorem Holds.rewind (h : w.Holds held) : w.rewind.Holds held where
  stores := List.forall₂_map_left_iff.mpr (h.stores.imp fun _ _ => Stores.rewind)
  sentFirst := by
    refine List.pairwise_map.mpr (List.pairwise_of_forall fun f g late => ?_)
    cases late
  fits := by
    rw [length_rewind]
    exact h.fits
  reaches := h.reaches
  blocks := h.blocks

/-! ## Answers -/

private theorem takeWhile_eq_take {α : Type} {l : List α} {p : α → Bool} {n : Nat}
    (upTo : ∀ i (inside : i < l.length), p l[i] = decide (i < n)) :
    l.takeWhile p = l.take n ∧ l.dropWhile p = l.drop n := by
  induction l generalizing n with
  | nil => simp
  | cons x rest ih =>
    have first := upTo 0 (Nat.succ_pos _)
    cases n with
    | zero => simp_all
    | succ n =>
      have later := ih (n := n) fun i inside => by
        simpa using upTo (i + 1) (Nat.succ_lt_succ inside)
      simp_all

theorem takeWhile_eq_filter {α : Type} {p : α → Bool} {l : List α}
    (earlier : l.Pairwise fun x y => p y → p x) :
    l.takeWhile p = l.filter p ∧ l.dropWhile p = l.filter (! p ·) := by
  induction l with
  | nil => exact ⟨rfl, rfl⟩
  | cons x rest ih =>
    obtain ⟨first, later⟩ := List.pairwise_cons.mp earlier
    cases holds : p x with
    | true =>
      obtain ⟨front, back⟩ := ih later
      simp [holds, front, back]
    | false =>
      have none : ∀ y ∈ rest, p y = false := by
        intro y among
        by_contra other
        have := first y among (by simpa using other)
        simp [holds] at this
      have nothing : rest.filter p = [] := List.filter_eq_nil_iff.mpr (by simpa using none)
      have all : rest.filter (! p ·) = rest := List.filter_eq_self.mpr (by simpa using none)
      simp [holds, nothing, all]

variable {epoch first : Nat} {frames : List (Nat × Bytes)}

theorem Holds.id_eq (h : w.Holds (Packet.series epoch first frames)) {i : Nat}
    (inside : i < w.frames.length) : w.frames[i].id = (first + i) % FrameId.space := by
  have stores := h.stores
  generalize w.frames = held at stores inside
  clear h
  induction frames generalizing first held i with
  | nil =>
    cases stores
    cases inside
  | cons frame rest ih =>
    obtain ⟨metadata, payload⟩ := frame
    cases stores with
    | cons here later =>
      cases i with
      | zero =>
        obtain ⟨frame, same, id⟩ := here.id
        cases same
        exact id
      | succ i =>
        rw [List.getElem_cons_succ, ih _ later (Nat.lt_of_succ_lt_succ inside)]
        rw [Nat.add_right_comm, Nat.add_assoc]

theorem Holds.getLast?_id (h : w.Holds (Packet.series epoch first frames)) {newest : Outgoing}
    (last : w.frames.getLast? = some newest) :
    0 < frames.length ∧ newest.id = (first + frames.length - 1) % FrameId.space := by
  have length := h.length_eq
  rw [Packet.length_series, SendWindow.length] at length
  rw [List.getLast?_eq_getElem?] at last
  obtain ⟨inside, rfl⟩ := List.getElem?_eq_some_iff.mp last
  rw [h.id_eq inside, length]
  refine ⟨by omega, ?_⟩
  congr 1
  omega

variable {count : Nat} (h : w.Holds (Packet.series epoch first frames)) (least : first ≤ count)
  (most : count ≤ first + frames.length)
include h least most

/-- An answer that acknowledges `count` frames in all releases those before that place. -/
theorem Holds.ackThrough_eq {id : Nat}
    (names : (id : Int) % FrameId.space = ((count : Int) - 1) % FrameId.space) :
    w.ackThrough id = (count - first,
      w.split (w.frames.take (count - first)) (w.frames.drop (count - first))) := by
  have length := h.length_eq
  have small := h.length_le
  rw [Packet.length_series] at length small
  rw [SendWindow.length] at length
  unfold ackThrough
  split
  · next empty =>
    rw [List.getLast?_eq_none_iff] at empty
    rw [empty, List.length_nil] at length
    have none : count - first = 0 := by omega
    rw [none]
    obtain ⟨capacity, frames', pool⟩ := w
    obtain rfl : frames' = [] := empty
    rfl
  · next newest last =>
    obtain ⟨some, newestId⟩ := h.getLast?_id last
    have ahead : FrameId.distance id newest.id = (count : Int) - 1 - (first + frames.length - 1) :=
      FrameId.distance_eq names (by rw [newestId]; simp only [FrameId.space]; omega)
        (by simp only [FrameId.reach] at *; omega) (by simp only [FrameId.reach] at *; omega)
    rw [if_neg (by omega)]
    -- The frames are released as long as their places lie before the one that is named.
    have through : ∀ i (inside : i < w.frames.length),
        isThrough id w.frames[i] = decide (i < count - first) := by
      intro i inside
      have behind : FrameId.distance w.frames[i].id id = (first + i : Int) - (count - 1) :=
        FrameId.distance_eq (by rw [h.id_eq inside]; simp only [FrameId.space]; omega) names
          (by simp only [FrameId.reach] at *; omega) (by simp only [FrameId.reach] at *; omega)
      simp only [isThrough, behind]
      exact decide_eq_decide.mpr (by omega)
    obtain ⟨released, kept⟩ := takeWhile_eq_take through
    simp only [released, kept, List.length_take]
    congr 1
    omega

/-- A request for the frame at the place `count` releases those before it. -/
theorem Holds.nack_eq (nonempty : w.frames ≠ []) :
    w.nack (count % FrameId.space) = some (count - first,
      (w.split (w.frames.take (count - first)) (w.frames.drop (count - first))).rewind) := by
  have small := h.length_le
  rw [Packet.length_series] at small
  have names : ((FrameId.prev (count % FrameId.space) : Nat) : Int) % FrameId.space =
      ((count : Int) - 1) % FrameId.space := by
    simp only [FrameId.prev, FrameId.advance, FrameId.space]
    omega
  unfold nack
  split
  · next empty => exact absurd (List.getLast?_eq_none_iff.mp empty) nonempty
  · next newest last =>
    -- The place that is asked for is in the window or the one behind it.
    have known : w.spans (count % FrameId.space) ∨
        count % FrameId.space = FrameId.next newest.id := by
      obtain ⟨some, newestId⟩ := h.getLast?_id last
      by_cases inside : count < first + frames.length
      · left
        have oldest : 0 < w.frames.length := List.length_pos_iff.mpr nonempty
        have oldestId := h.id_eq oldest
        have behind : FrameId.distance (count % FrameId.space) newest.id =
            (count : Int) - (first + frames.length - 1) :=
          FrameId.distance_eq (by simp) (by rw [newestId]; simp only [FrameId.space]; omega)
            (by simp only [FrameId.reach] at *; omega) (by simp only [FrameId.reach] at *; omega)
        have ahead : FrameId.distance (count % FrameId.space) w.frames[0].id =
            (count : Int) - first :=
          FrameId.distance_eq (by simp) (by rw [oldestId]; simp)
            (by simp only [FrameId.reach] at *; omega) (by simp only [FrameId.reach] at *; omega)
        simp only [spans, List.head?_eq_getElem?,
          List.getElem?_eq_getElem oldest, last, ahead, behind,
          Bool.and_eq_true, decide_eq_true_eq]
        omega
      · right
        rw [newestId]
        simp only [FrameId.next, FrameId.advance, FrameId.space]
        omega
    rw [if_pos (by simpa using known), h.ackThrough_eq least most names]

end SendWindow

end FramedLink
