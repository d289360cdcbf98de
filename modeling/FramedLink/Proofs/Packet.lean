import FramedLink.Proofs.FramerReading
import FramedLink.Proofs.Pair

/-! # Packets

A frame on its way carries an id of eleven bits. What it stands for is more than that: the place of
a data frame among all of its epoch, the number of frames that an answer acknowledges. A packet is
a frame together with what it stands for, and the items of a line are packets with noise between
them.
-/

namespace FramedLink

open FramedLink.Frame FramedLink.Framing

/-- How the receiving side answers. -/
inductive Answer where
  /-- So many frames have arrived. -/
  | ack
  /-- So many frames have arrived, and the next one is asked for. -/
  | nack
  /-- So many frames have arrived, and then the stream of frames was lost. -/
  | lost
  deriving DecidableEq, Repr

namespace Answer

/-- The control frame of an answer to `count` frames. An acknowledgement names the last of them, a
request the one behind it. -/
def toFrame (answer : Answer) (count : Nat) : ControlFrame :=
  match answer with
  | ack => ⟨.ackAll, FrameId.prev count⟩
  | nack => ⟨.nackId, count % FrameId.space⟩
  | lost => ⟨.nackFraming, count % FrameId.space⟩

end Answer

/-- What a frame on its way stands for. -/
inductive Packet where
  /-- The data frame at this place among those of its epoch. -/
  | data (epoch place metadata : Nat) (payload : Bytes)
  /-- The answer to the first `count` frames of an epoch. -/
  | answer (kind : Answer) (epoch count : Nat)
  /-- The peer is asked to begin anew. -/
  | request
  /-- The link has begun anew. -/
  | response
  deriving DecidableEq, Repr

namespace Packet

def frame : Packet → Frame
  | data _ place metadata payload => .data ⟨place % FrameId.space, metadata, payload⟩
  | answer kind _ count => .control (kind.toFrame count)
  | request => .control ⟨.reset, LinkState.resetRequest⟩
  | response => .control ⟨.reset, LinkState.resetResponse⟩

def image (packet : Packet) : Bytes := packet.frame.image

/-- The fields of the frame fit into their bits. -/
def Valid (packet : Packet) : Prop := packet.frame.Valid

theorem valid_data {metadata : Nat} {payload : Bytes} (some : payload ≠ [])
    (short : payload.length ≤ maxPayload) (fits : metadata ≤ maxMetadata) (epoch place : Nat) :
    (data epoch place metadata payload).Valid := by
  have small := Nat.mod_lt place (show 0 < FrameId.space by decide)
  have positive := List.length_pos_iff.mpr some
  simp only [Valid, frame, Frame.Valid, DataHeader.Valid, DataFrame.header, maxId]
  simp only [FrameId.space] at small ⊢
  omega

theorem valid_answer (kind : Answer) (epoch count : Nat) : (answer kind epoch count).Valid := by
  have small := Nat.mod_lt count (show 0 < FrameId.space by decide)
  have previous := FrameId.prev_lt count
  simp only [FrameId.space] at small previous
  cases kind <;> simp only [Valid, frame, Answer.toFrame, Frame.Valid, maxId, FrameId.space]
  · exact Nat.le_of_lt_succ previous
  · exact Nat.le_of_lt_succ small
  · exact Nat.le_of_lt_succ small

theorem valid_request : request.Valid := Nat.zero_le _

theorem valid_response : response.Valid := Nat.succ_le_succ (Nat.zero_le _)

theorem eq_request {packet : Packet} (same : packet.frame = request.frame) : packet = request := by
  cases packet with
  | data | response => simp [frame, LinkState.resetRequest, LinkState.resetResponse] at same
  | answer kind => cases kind <;> simp [frame, Answer.toFrame] at same
  | request => rfl

theorem eq_response {packet : Packet} (same : packet.frame = response.frame) :
    packet = response := by
  cases packet with
  | data | request => simp [frame, LinkState.resetRequest, LinkState.resetResponse] at same
  | answer kind => cases kind <;> simp [frame, Answer.toFrame] at same
  | response => rfl

end Packet

inductive Item where
  | packet (packet : Packet)
  | noise (bytes : Bytes)

namespace Item

def bytes : Item → Bytes
  | packet p => p.image
  | noise bytes => bytes

def packet? : Item → Option Packet
  | packet p => some p
  | noise _ => none

/-- A packet whose frame fits, or noise in which no frame can begin. -/
def Valid : Item → Prop
  | packet p => p.Valid
  | noise bytes => start1 ∉ bytes

/-- What a framer keeps of the first `count` bytes. -/
def kept : Item → Nat → Bytes
  | packet p, count => p.image.take count
  | noise _, _ => []

end Item

def packets (items : List Item) : List Packet := items.filterMap Item.packet?

/-- What a framer keeps of the first of several items. -/
def Item.keptOf : List Item → Nat → Bytes
  | [], _ => []
  | item :: _, count => item.kept count

/-! ## What arrives -/

theorem scan_noise {bytes : Bytes} (clean : start1 ∉ bytes) (rest : Bytes) :
    (scan 0 (bytes ++ rest)).1.filterMap Finding.frame? =
        (scan 0 rest).1.filterMap Finding.frame? ∧
      (scan 0 (bytes ++ rest)).2 = (scan 0 rest).2 := by
  induction bytes with
  | nil => exact ⟨rfl, rfl⟩
  | cons b more ih =>
    have other : b ≠ start1 := fun same => clean (same ▸ List.mem_cons_self)
    have later := ih fun inside => clean (List.mem_cons_of_mem _ inside)
    rw [List.cons_append, scan_of_some (examine_noise other _)]
    exact later

theorem scan_image {packet : Packet} (valid : packet.Valid) (rest : Bytes) :
    (scan 0 (packet.image ++ rest)).1.filterMap Finding.frame? =
        packet.frame :: (scan 0 rest).1.filterMap Finding.frame? ∧
      (scan 0 (packet.image ++ rest)).2 = (scan 0 rest).2 := by
  rw [Packet.image, scan_image_append valid]
  exact ⟨rfl, rfl⟩

private theorem scan_item {item : Item} (valid : item.Valid) (rest : Bytes) :
    (scan 0 (item.bytes ++ rest)).1.filterMap Finding.frame? =
        item.packet?.toList.map Packet.frame ++ (scan 0 rest).1.filterMap Finding.frame? ∧
      (scan 0 (item.bytes ++ rest)).2 = (scan 0 rest).2 := by
  cases item with
  | packet packet => exact scan_image valid rest
  | noise bytes => exact scan_noise valid rest

/-- A first part of an item holds no frame: a part of a packet decides nothing, and noise is passed
over. -/
theorem scan_take_item {item : Item} (valid : item.Valid) {count : Nat}
    (part : count < item.bytes.length) :
    (scan 0 (item.bytes.take count)).1.filterMap Finding.frame? = [] ∧
      (scan 0 (item.bytes.take count)).2 = item.kept count := by
  cases item with
  | packet packet =>
    change (scan 0 (packet.frame.image.take count)).1.filterMap Finding.frame? = _ ∧
      (scan 0 (packet.frame.image.take count)).2 = _
    rw [scan_take_image valid part]
    exact ⟨rfl, rfl⟩
  | noise bytes =>
    have clean : start1 ∉ bytes.take count := fun inside => valid (List.mem_of_mem_take inside)
    obtain ⟨first, onwards⟩ := scan_noise clean []
    rw [List.append_nil] at first onwards
    exact ⟨first, onwards⟩

/-- The first `count` bytes of the items are those of the items `front`, and `n` bytes of the first
of the items `back`. -/
structure Completes (items : List Item) (count : Nat) (front back : List Item) (n : Nat) :
    Prop where
  split : items = front ++ back
  complete : Line.complete (items.map Item.bytes) count = front.map Item.bytes
  beyond : Line.beyond (items.map Item.bytes) count = (back.map Item.bytes, n)

/-- In the first bytes of a line, the packets that are complete are found, and what there is of
the next one is kept. -/
theorem scan_items {items : List Item} (valid : ∀ item ∈ items, item.Valid) (count : Nat) :
    ∃ front back n, Completes items count front back n ∧
      (scan 0 ((items.map Item.bytes).flatten.take count)).1.filterMap Finding.frame? =
        (packets front).map Packet.frame ∧
      (scan 0 ((items.map Item.bytes).flatten.take count)).2 = Item.keptOf back n := by
  induction items generalizing count with
  | nil => exact ⟨[], [], 0, ⟨rfl, rfl, rfl⟩, by simp [scan, packets], by simp [scan, Item.keptOf]⟩
  | cons item rest ih =>
    have good := valid item List.mem_cons_self
    by_cases whole : item.bytes.length ≤ count
    · obtain ⟨front, back, n, ⟨rfl, done, left⟩, found, kept⟩ :=
        ih (fun other among => valid other (List.mem_cons_of_mem _ among))
          (count - item.bytes.length)
      refine ⟨item :: front, back, n, ⟨rfl, ?_, ?_⟩, ?_⟩
      · rw [List.map_cons, Line.complete, if_pos whole, done, List.map_cons]
      · rw [List.map_cons, Line.beyond, if_pos whole, left]
      obtain ⟨first, onwards⟩ := scan_item good
        ((((front ++ back).map Item.bytes).flatten).take (count - item.bytes.length))
      rw [List.map_cons, List.flatten_cons, List.take_append, List.take_of_length_le whole, first,
        onwards, found, kept]
      refine ⟨?_, rfl⟩
      rw [← List.map_append]
      cases item <;> rfl
    · refine ⟨[], item :: rest, count, ⟨rfl, ?_, ?_⟩, ?_⟩
      · rw [List.map_cons, Line.complete, if_neg whole, List.map_nil]
      · rw [List.map_cons, Line.beyond, if_neg whole]
      rw [List.map_cons, List.flatten_cons,
        List.take_append_of_le_length (Nat.le_of_not_le whole)]
      exact scan_take_item good (Nat.lt_of_not_le whole)

/-- Nothing has arrived of the items, or a first part of the first one. -/
def Item.Open (items : List Item) (arrived : Nat) : Prop :=
  arrived = 0 ∨ ∃ item ∈ items.head?, arrived < item.bytes.length

theorem Completes.opened {items front back : List Item} {count n : Nat}
    (h : Completes items count front back n) : Item.Open back n := by
  have left := h.beyond
  clear h
  induction items generalizing count with
  | nil =>
    obtain ⟨-, rfl⟩ := Prod.mk.inj left
    exact .inl rfl
  | cons item rest ih =>
    rw [List.map_cons, Line.beyond] at left
    split at left
    · exact ih left
    · next part =>
      obtain ⟨same, rfl⟩ := Prod.mk.inj left
      cases back with
      | nil => cases same
      | cons head tail =>
        rw [List.map_cons] at same
        refine .inr ⟨head, rfl, ?_⟩
        rw [← (List.cons.inj same).1]
        exact Nat.lt_of_not_le part

theorem scan_arrived {items : List Item} (valid : ∀ item ∈ items, item.Valid) {arrived : Nat}
    (opened : Item.Open items arrived) :
    (scan 0 ((items.map Item.bytes).flatten.take arrived)).1.filterMap Finding.frame? = [] ∧
      (scan 0 ((items.map Item.bytes).flatten.take arrived)).2 = Item.keptOf items arrived := by
  rcases opened with rfl | ⟨first, ahead, within⟩
  · rw [List.take_zero]
    refine ⟨rfl, ?_⟩
    rcases items with _ | ⟨packet | noise, rest⟩
    · rfl
    · simp [scan, Item.keptOf, Item.kept]
    · rfl
  · rcases items with _ | ⟨item, rest⟩
    · cases ahead
    · obtain rfl : item = first := Option.some.inj ahead
      obtain ⟨front, back, n, ⟨split, done, left⟩, found, kept⟩ := scan_items valid arrived
      have part : ¬ item.bytes.length ≤ arrived := Nat.not_le_of_lt within
      rw [List.map_cons, Line.beyond, if_neg part] at left
      rw [List.map_cons, Line.complete, if_neg part] at done
      obtain ⟨-, rfl⟩ := Prod.mk.inj left
      obtain rfl := List.map_eq_nil_iff.mp done.symm
      rw [List.nil_append] at split
      subst split
      exact ⟨found, kept⟩

/-- A framer that was given what has arrived of the items. -/
structure Follows (f : Framer) (items : List Item) (arrived : Nat) : Prop where
  settled : f.Settled
  opened : Item.Open items arrived
  buffer : f.buffer = Item.keptOf items arrived

/-- What has been found in all that has arrived was found before or is found in the next bytes. -/
theorem Follows.scan_eq {f : Framer} {items : List Item} {arrived : Nat}
    (follows : Follows f items arrived) (valid : ∀ item ∈ items, item.Valid) (count : Nat) :
    let bytes := (items.map Item.bytes).flatten
    let next := scan 0 (f.buffer ++ (bytes.drop arrived).take count)
    scan 0 (bytes.take (arrived + count)) =
      ((scan 0 (bytes.take arrived)).1 ++ next.1, next.2) := by
  obtain ⟨-, held⟩ := scan_arrived valid follows.opened
  have whole := scan_append ((items.map Item.bytes).flatten.take arrived)
    (((items.map Item.bytes).flatten.drop arrived).take count)
  rw [← List.take_add] at whole
  simp only [held, ← follows.buffer] at whole
  exact whole

/-- With the next bytes, a framer finds the packets that they complete. -/
theorem Follows.receive {f : Framer} {items : List Item} {arrived : Nat}
    (follows : Follows f items arrived) (valid : ∀ item ∈ items, item.Valid) (count : Nat) :
    ∃ front back n, Completes items (arrived + count) front back n ∧
      let result := f.receive (((items.map Item.bytes).flatten.drop arrived).take count)
      result.2.filterMap Notice.frame? = (packets front).map Packet.frame ∧
        Follows result.1 back n := by
  obtain ⟨front, back, n, completes, found, kept⟩ := scan_items valid (arrived + count)
  obtain ⟨none, -⟩ := scan_arrived valid follows.opened
  rw [follows.scan_eq valid count] at found kept
  rw [List.filterMap_append, none, List.nil_append] at found
  have read := Framer.reads_receive follows.settled
    (((items.map Item.bytes).flatten.drop arrived).take count)
  exact ⟨front, back, n, completes, (Framer.frames_receive follows.settled _).trans found,
    read.settled, completes.opened, read.buffer.trans kept⟩

end FramedLink
