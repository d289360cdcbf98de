import FramedLink.Proofs.Reaction

/-! # How the window changes

A frame comes in behind the others on a block of the pool. The first one that waits is handed over.
An answer of the peer takes some frames out, and the others stay in their order; perhaps they are
to be handed over again. Whatever is to be shown of a window need be shown of these changes only.
-/

namespace FramedLink

open FramedLink.Frame

namespace Outgoing

/-- The frame without what is remembered about handing it over. -/
def unsent (f : Outgoing) : Outgoing where
  id := f.id
  buffer := f.buffer
  place := f.place

/-- The id of a frame and its bytes. -/
def named (f : Outgoing) : Nat × Bytes := (f.id, f.image)

theorem map_named_of_unsent {frames frames' : List Outgoing}
    (same : frames.map unsent = frames'.map unsent) : frames.map named = frames'.map named := by
  have names := congrArg (List.map named) same
  rw [List.map_map, List.map_map] at names
  exact names

theorem length_of_unsent {frames frames' : List Outgoing}
    (same : frames.map unsent = frames'.map unsent) : frames.length = frames'.length := by
  have lengths := congrArg List.length same
  rwa [List.length_map, List.length_map] at lengths

end Outgoing

/-! ## Being handed over -/

namespace LinkState

variable {δ ω : Type} [Driver δ]

private theorem unsent_handPending (now : Nat) (frames : List Outgoing) (s : LinkState δ ω) :
    (handPending now frames s).1.map Outgoing.unsent = frames.map Outgoing.unsent := by
  induction frames generalizing s with
  | nil => rfl
  | cons f rest ih =>
    rw [handPending]
    split
    · rw [List.map_cons, ih]
      rfl
    · split
      · rfl
      · rw [List.map_cons, ih]
        rfl

/-- A flush hands over what waits, and remembers in the window that it did. -/
theorem flush_frame (s : LinkState δ ω) :
    s.flush =
      { s with
        driver := s.flush.driver
        window.frames := s.flush.window.frames
        control.waiting := s.flush.control.waiting
        status := s.flush.status
        journal := s.flush.journal } := by
  have controls := handControls_frame s.control.waiting s
  unfold flush
  split
  · next left =>
    rw [left] at controls
    simp only at controls
    rw [controls]
  · next s' left =>
    rw [left] at controls
    have pending := handPending_frame s'.clock s'.window.frames s'
    simp only at controls ⊢
    rw [pending]
    simp only
    rw [controls]

theorem unsent_flush (s : LinkState δ ω) :
    s.flush.window.frames.map Outgoing.unsent = s.window.frames.map Outgoing.unsent := by
  have controls := handControls_frame s.control.waiting s
  unfold flush
  split
  · next left =>
    rw [left] at controls
    exact congrArg (·.window.frames.map Outgoing.unsent) controls
  · next s' left =>
    rw [left] at controls
    have window := congrArg (·.window.frames.map Outgoing.unsent) controls
    exact (unsent_handPending _ _ _).trans window

end LinkState

namespace SendWindow

/-! ## Coming in -/

/-- A frame on a block of the pool, as it is put into the window. -/
def entering (w : SendWindow) (id : Nat) (image : Bytes) : Outgoing where
  id
  buffer := Buffer.fill { block := List.replicate w.pool.blockSize 0 } image
  place := w.entered

theorem capacity_entering (w : SendWindow) (id : Nat) (image : Bytes) :
    (w.entering id image).buffer.capacity = w.pool.blockSize := by
  have blank : Buffer.capacity { block := List.replicate w.pool.blockSize 0 } = w.pool.blockSize :=
    List.length_replicate
  exact (Buffer.capacity_fill _ _).trans blank

theorem image_entering {w : SendWindow} {image : Bytes} (fits : image.length ≤ w.pool.blockSize)
    (id : Nat) : (w.entering id image).image = image := by
  apply Buffer.contents_fill
  rw [Buffer.capacity, List.length_replicate]
  exact fits

theorem push_eq_some_iff {w w' : SendWindow} {id : Nat} {image : Bytes} :
    w.push id image = some w' ↔ ∃ free, w.pool.free = free + 1 ∧
      w' = { w with
        frames := w.frames ++ [w.entering id image]
        pool := { w.pool with free }
        entered := w.entered + 1 } := by
  unfold push Pool.acquire
  cases free : w.pool.free with
  | zero => simp
  | succ left =>
    constructor
    · intro pushed
      cases pushed
      exact ⟨left, rfl, rfl⟩
    · rintro ⟨_, same, rfl⟩
      cases same
      rfl

theorem push_eq_none_iff {w : SendWindow} {id : Nat} {image : Bytes} :
    w.push id image = none ↔ w.pool.free = 0 := by
  unfold push Pool.acquire
  cases w.pool.free with
  | zero => simp
  | succ left => simp

/-! ## Going out -/

/-- A window in which every frame of another one is kept or released. -/
structure Parts (w : SendWindow) (released kept : List Outgoing) : Prop where
  all : (released ++ kept).Perm w.frames
  inOrder : kept.Sublist w.frames

theorem Parts.length {w : SendWindow} {released kept : List Outgoing} (h : w.Parts released kept) :
    released.length + kept.length = w.length := by
  rw [← List.length_append]
  exact h.all.length_eq

theorem Parts.released_subset {w : SendWindow} {released kept : List Outgoing}
    (h : w.Parts released kept) : released ⊆ w.frames := fun _ among =>
  h.all.subset (List.mem_append_left _ among)

theorem parts_none (w : SendWindow) : w.Parts [] w.frames := ⟨.refl _, .refl _⟩

theorem parts_all (w : SendWindow) : w.Parts w.frames [] where
  all := by rw [List.append_nil]
  inOrder := List.nil_sublist _

theorem ackThrough_cases (w : SendWindow) (id : Nat) :
    ∃ released kept, w.Parts released kept ∧
      w.ackThrough id = (released.length, w.split released kept) := by
  unfold ackThrough
  split
  · exact ⟨[], w.frames, w.parts_none, rfl⟩
  · split
    · exact ⟨[], w.frames, w.parts_none, rfl⟩
    · refine ⟨_, _, ⟨?_, List.dropWhile_sublist _⟩, rfl⟩
      rw [List.takeWhile_append_dropWhile]

theorem ackOne_cases (w : SendWindow) (id : Nat) :
    ∃ released kept, w.Parts released kept ∧ (w.ackOne id).1.toNat = released.length ∧
      (w.ackOne id).2 = w.split released kept := by
  unfold ackOne
  split
  · exact ⟨[], w.frames, w.parts_none, rfl, rfl⟩
  · next f found =>
    refine ⟨[f], _, ⟨?_, List.eraseP_sublist⟩, rfl, rfl⟩
    obtain ⟨named, front, back, frames, others⟩ := List.find?_eq_some_iff_append.mp found
    have absent : ∀ g ∈ front, ¬ decide (g.id = id) = true := by simpa using others
    have left : w.frames.eraseP (fun g => decide (g.id = id)) = front ++ back := by
      rw [frames, List.eraseP_append_right _ absent]
      congr 1
      exact List.eraseP_cons_of_pos named
    rw [left, frames]
    show (f :: (front ++ back)).Perm (front ++ f :: back)
    exact List.perm_middle.symm

/-- What an answer of the peer makes of the window: some frames are released and counted, the
others are kept, and perhaps they are to be handed over again. -/
theorem answer_cases (w : SendWindow) (f : ControlFrame) :
    ∃ released kept, w.Parts released kept ∧ (w.answer f).1 = released.length ∧
      ((w.answer f).2 = w.split released kept ∨
        (w.answer f).2 = (w.split released kept).rewind) := by
  have asked : ∃ released kept, w.Parts released kept ∧
      ((w.nack f.id).getD (0, w)).1 = released.length ∧
        (((w.nack f.id).getD (0, w)).2 = w.split released kept ∨
          ((w.nack f.id).getD (0, w)).2 = (w.split released kept).rewind) := by
    unfold nack
    split
    · exact ⟨[], w.frames, w.parts_none, rfl, .inl rfl⟩
    · split
      · obtain ⟨released, kept, parts, same⟩ := w.ackThrough_cases (FrameId.prev f.id)
        exact ⟨released, kept, parts, by rw [same]; rfl, .inr (by rw [same]; rfl)⟩
      · exact ⟨[], w.frames, w.parts_none, rfl, .inl rfl⟩
  unfold answer
  cases f.control with
  | ackAll =>
    obtain ⟨released, kept, parts, same⟩ := w.ackThrough_cases f.id
    exact ⟨released, kept, parts, by rw [same], .inl (by rw [same])⟩
  | ackOne =>
    obtain ⟨released, kept, parts, count, same⟩ := w.ackOne_cases f.id
    exact ⟨released, kept, parts, count, .inl same⟩
  | nackId => exact asked
  | nackFraming => exact asked
  | reset => exact ⟨[], w.frames, w.parts_none, rfl, .inl rfl⟩

end SendWindow

end FramedLink
