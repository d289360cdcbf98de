import Mathlib.Algebra.Ring.Nat
import FramedLink.Proofs.Meeting
import FramedLink.Proofs.WindowChanges
import FramedLink.Simulation.Application
import FramedLink.Simulation.Wire

/-! # Blocks and places

Every block of the pool is free or holds a frame of the window, whatever happens to a link, so no
block is ever lost. What a link says it can accept is therefore exact: a frame whose fields fit is
accepted as long as this is not zero, and each one takes one away.
-/

namespace FramedLink

open FramedLink.Frame

/-! ## The stock of a window -/

/-- The blocks of a configuration are free or hold the frames of the window, for which there are
places. -/
structure SendWindow.Stocked (config : Config) (w : SendWindow) : Prop where
  capacity : w.capacity = config.sendWindow
  blocks : w.pool.blocks = config.sendBlocks
  blockSize : w.pool.blockSize = maxSize
  conserved : w.pool.free + w.length = config.sendBlocks
  fits : w.length ≤ config.sendWindow
  sized : ∀ f ∈ w.frames, f.buffer.capacity = maxSize

namespace SendWindow.Stocked

variable {config : Config} {w w' : SendWindow}

theorem push (h : w.Stocked config) {id : Nat} {image : Bytes} (room : w.isFull = false)
    (pushed : w.push id image = some w') : w'.Stocked config := by
  obtain ⟨free, some, rfl⟩ := push_eq_some_iff.mp pushed
  have conserved := h.conserved
  have capacity := h.capacity
  simp only [isFull, decide_eq_false_iff_not, Nat.not_le] at room
  have longer : (w.frames ++ [w.entering id image]).length = w.length + 1 :=
    List.length_append
  refine ⟨h.capacity, h.blocks, h.blockSize, ?_, ?_, ?_⟩
  · simp only [SendWindow.length] at longer conserved ⊢
    omega
  · simp only [SendWindow.length] at longer room ⊢
    omega
  · intro f among
    rcases List.mem_append.mp among with earlier | last
    · exact h.sized f earlier
    · rw [List.mem_singleton.mp last, capacity_entering, h.blockSize]

theorem split (h : w.Stocked config) {released kept : List Outgoing}
    (parts : w.Parts released kept) : (w.split released kept).Stocked config := by
  have conserved := h.conserved
  have blocks := h.blocks
  have length := parts.length
  have fits := h.fits
  have back : w.pool.releaseAll (released.map (·.buffer)) =
      { w.pool with free := w.pool.free + released.length } := by
    rw [Pool.releaseAll_eq, List.length_map]
    · intro b among
      obtain ⟨f, inside, rfl⟩ := List.mem_map.mp among
      rw [h.sized f (parts.released_subset inside), h.blockSize]
    · rw [List.length_map]
      omega
  unfold SendWindow.split
  rw [back]
  refine ⟨h.capacity, h.blocks, h.blockSize, ?_, ?_, ?_⟩
  · simp only [SendWindow.length] at conserved length ⊢
    omega
  · simp only [SendWindow.length] at fits length ⊢
    omega
  · intro f among
    exact h.sized f (parts.inOrder.subset among)

theorem withFrames (h : w.Stocked config) {frames : List Outgoing}
    (same : frames.map Outgoing.unsent = w.frames.map Outgoing.unsent) :
    { w with frames }.Stocked config := by
  have length : frames.length = w.length := Outgoing.length_of_unsent same
  refine ⟨h.capacity, h.blocks, h.blockSize, ?_, ?_, ?_⟩
  · rw [← h.conserved, ← length]
    rfl
  · exact Nat.le_trans (Nat.le_of_eq length) h.fits
  · intro f among
    have inside : f.unsent ∈ w.frames.map Outgoing.unsent :=
      same ▸ List.mem_map_of_mem among
    obtain ⟨g, here, buffer⟩ := List.mem_map.mp inside
    rw [← h.sized g here]
    exact congrArg (fun f => f.buffer.capacity) buffer.symm

theorem rewind (h : w.Stocked config) : w.rewind.Stocked config := by
  apply h.withFrames
  rw [List.map_map]
  rfl

theorem answer (h : w.Stocked config) (f : ControlFrame) : (w.answer f).2.Stocked config := by
  obtain ⟨released, kept, parts, -, same | same⟩ := w.answer_cases f
  · rw [same]
    exact h.split parts
  · rw [same]
    exact (h.split parts).rewind

theorem clear (h : w.Stocked config) : w.clear.Stocked config := by
  have empty := h.split w.parts_all
  exact ⟨empty.capacity, empty.blocks, empty.blockSize, empty.conserved, empty.fits, empty.sized⟩

end SendWindow.Stocked

namespace LinkState

variable {δ ω υ : Type} [Driver δ]

/-- Whatever happens to a link, no block is lost. -/
theorem lasting_stocked (upper : Upper υ ω) (config : Config) :
    Lasting upper fun _ (s : LinkState δ ω) => s.window.Stocked config where
  emission := by
    intro _ s s' emission stocked
    cases emission with
    | handControl => exact stocked
    | handData now _ frames =>
      apply stocked.withFrames
      rw [frames, List.map_append, List.map_append]
      rfl
    | accept _ _ _ room pushed => exact stocked.push room pushed
    | remark => exact stocked
  reaction := by
    intro _ s s' happening calls reaction stocked
    cases reaction with
    | accept => exact stocked
    | again => exact stocked
    | ask => exact stocked
    | pass => exact stocked
    | keep => exact stocked.answer _
    | release => exact stocked.answer _
    | resume => exact stocked.answer _
    | request => exact stocked.clear
    | response => exact stocked
    | lost => exact stocked
  told _ stocked := stocked
  counted _ stocked := stocked
  disconnected stocked := stocked
  rewind stocked := stocked.rewind
  restarted stocked := stocked.clear
  driver _ stocked := stocked

theorem lasting_nextId (upper : Upper υ ω) :
    Lasting upper fun _ (s : LinkState δ ω) => s.nextId < FrameId.space where
  emission := by
    intro _ s s' emission small
    cases emission with
    | handControl => exact small
    | handData => exact small
    | accept => exact FrameId.next_lt s.nextId
    | remark => exact small
  reaction := by
    intro _ s s' happening calls reaction small
    cases reaction with
    | request => exact Nat.zero_lt_succ _
    | _ => exact small
  told _ small := small
  counted _ small := small
  disconnected small := small
  rewind small := small
  restarted _ := Nat.zero_lt_succ _
  driver _ small := small

/-! ## Sending -/

/-- A data frame whose fields fit, and for which there is capacity. -/
structure Sendable (s : LinkState δ ω) (metadata : Nat) (payload : Bytes) : Prop where
  some : 1 ≤ payload.length
  short : payload.length ≤ maxPayload
  fits : metadata ≤ maxMetadata
  capacity : 0 < s.sendCapacity

variable {s : LinkState δ ω} {metadata : Nat} {payload : Bytes}

omit [Driver δ] in
theorem sendCapacity_pos_iff :
    0 < s.sendCapacity ↔ s.window.isFull = false ∧ s.window.pool.free ≠ 0 := by
  simp only [sendCapacity, SendWindow.room, SendWindow.remaining, SendWindow.isFull,
    decide_eq_false_iff_not]
  omega

variable (s metadata payload) in
/-- A frame is refused and leaves no trace, or it comes into the window and what there is space for
is handed over. -/
theorem send_cases :
    (¬ s.Sendable metadata payload ∧ ∃ fault, s.send metadata payload = (.error fault, s)) ∨
      (s.Sendable metadata payload ∧ s.window.isFull = false ∧ ∃ window,
        s.window.push s.nextId (DataFrame.image ⟨s.nextId, metadata, payload⟩) = some window ∧
        s.send metadata payload = (.ok (),
          ({ s with window, nextId := FrameId.next s.nextId }.note
            (.accepted metadata payload)).flush)) := by
  unfold send
  by_cases short : maxPayload < payload.length
  · rw [if_pos short]
    exact .inl ⟨fun h => Nat.not_le_of_lt short h.short, _, rfl⟩
  rw [if_neg short]
  by_cases empty : payload = []
  · rw [if_pos empty]
    exact .inl ⟨fun h => List.length_pos_iff.mp h.some empty, _, rfl⟩
  rw [if_neg empty]
  by_cases large : maxMetadata < metadata
  · rw [if_pos large]
    exact .inl ⟨fun h => Nat.not_le_of_lt large h.fits, _, rfl⟩
  rw [if_neg large]
  by_cases full : s.window.isFull = true
  · rw [if_pos full]
    refine .inl ⟨fun h => ?_, _, rfl⟩
    rw [(sendCapacity_pos_iff.mp h.capacity).1] at full
    cases full
  have room := Bool.eq_false_iff.mpr full
  rw [if_neg full]
  simp only
  split
  · next pushed =>
    refine .inl ⟨fun h => ?_, _, rfl⟩
    exact (sendCapacity_pos_iff.mp h.capacity).2 (SendWindow.push_eq_none_iff.mp pushed)
  · next window pushed =>
    obtain ⟨free, left, -⟩ := SendWindow.push_eq_some_iff.mp pushed
    refine .inr ⟨⟨List.length_pos_iff.mpr empty, ?_, ?_, ?_⟩, room, window, pushed, rfl⟩
    · exact Nat.le_of_not_lt short
    · exact Nat.le_of_not_lt large
    · exact sendCapacity_pos_iff.mpr ⟨room, by omega⟩

theorem send_eq_ok_iff :
    (s.send metadata payload).1 = .ok () ↔ s.Sendable metadata payload := by
  rcases send_cases s metadata payload with ⟨unfit, fault, same⟩ | ⟨fit, -, window, -, same⟩
  · simp [same, unfit]
  · simp [same, fit]

omit [Driver δ] in
private theorem Sendable.encodeInto_eq (fit : s.Sendable metadata payload)
    (small : s.nextId < FrameId.space)
    (block : Bytes) (sized : block.length = maxSize) :
    let frame : DataFrame := ⟨s.nextId, metadata, payload⟩
    frame.encodeInto block = .ok (frame.image.length, block.overlay frame.image) := by
  intro frame
  have short := fit.short
  have valid : DataHeader.Valid ⟨s.nextId, metadata, payload.length⟩ :=
    ⟨Nat.le_of_lt_succ small, fit.fits, fit.some, short⟩
  have made := DataHeader.make_eq_ok_iff.mpr ⟨rfl, valid⟩
  have space : ¬ block.length < DataHeader.frameSize ⟨s.nextId, metadata, payload.length⟩ := by
    rw [sized]
    simp only [DataHeader.frameSize, maxSize]
    omega
  have size : frame.image.length = DataHeader.frameSize ⟨s.nextId, metadata, payload.length⟩ := by
    rw [DataFrame.length_image, Nat.add_comm]
    rfl
  unfold DataFrame.encodeInto
  rw [made, size]
  simp only [bind, Except.bind, space, if_false]
  rfl

private theorem sendCapacity_flush (s : LinkState δ ω) : s.flush.sendCapacity = s.sendCapacity := by
  have length := Outgoing.length_of_unsent (unsent_flush s)
  have window := congrArg window (flush_frame s)
  simp only [sendCapacity, SendWindow.room, SendWindow.remaining, SendWindow.length, length]
  rw [window]

theorem Sendable.sendCapacity_send (fit : s.Sendable metadata payload) :
    (s.send metadata payload).2.sendCapacity + 1 = s.sendCapacity := by
  rcases send_cases s metadata payload with ⟨unfit, -⟩ | ⟨-, room, window, pushed, same⟩
  · exact absurd fit unfit
  obtain ⟨free, some, rfl⟩ := SendWindow.push_eq_some_iff.mp pushed
  rw [same]
  simp only
  rw [sendCapacity_flush]
  simp only [SendWindow.isFull, decide_eq_false_iff_not] at room
  simp only [sendCapacity, note, SendWindow.room, SendWindow.remaining, SendWindow.length,
    List.length_append, List.length_singleton] at room ⊢
  omega

/-- What an accepted frame changes: it is the newest of the window, the next id follows, and there
is capacity for one frame less. -/
theorem send_of_sendable {config : Config} (stocked : s.window.Stocked config)
    (fit : s.Sendable metadata payload) :
    let after := (s.send metadata payload).2
    after.window.frames.map Outgoing.named = s.window.frames.map Outgoing.named ++
        [(s.nextId, DataFrame.image ⟨s.nextId, metadata, payload⟩)] ∧
      after.nextId = FrameId.next s.nextId ∧ after.sendCapacity + 1 = s.sendCapacity := by
  rcases send_cases s metadata payload with ⟨unfit, -⟩ | ⟨-, room, window, pushed, same⟩
  · exact absurd fit unfit
  obtain ⟨free, some, rfl⟩ := SendWindow.push_eq_some_iff.mp pushed
  have small :
      (DataFrame.image ⟨s.nextId, metadata, payload⟩).length ≤ s.window.pool.blockSize := by
    have short := fit.short
    rw [DataFrame.length_image, stocked.blockSize]
    simp only [maxSize]
    omega
  refine ⟨?_, ?_, fit.sendCapacity_send⟩
  · rw [same, Outgoing.map_named_of_unsent (unsent_flush _)]
    simp only [note, List.map_append, List.map_cons, List.map_nil, Outgoing.named,
      SendWindow.image_entering small]
    rfl
  · rw [same]
    exact congrArg nextId (flush_frame _)

end LinkState

namespace Link

open Simulation

variable {δ ω υ : Type} [Driver δ]

theorem stocked_ofConfig {config : Config} {driver : δ} {l : Link δ ω}
    (started : ofConfig config driver = .ok l) : l.state.window.Stocked config := by
  obtain ⟨-, rfl⟩ := ofConfig_eq_ok_iff.mp started
  exact ⟨rfl, rfl, rfl, rfl, Nat.zero_le _, nofun⟩

/-- In every state in which a link is met, the free blocks and the frames of the window make up the
blocks of the configuration. A frame is accepted exactly if its fields fit and the capacity is not
zero; it is then encoded into a blank block and the newest of the window, and the capacity is one
less. What is refused changes nothing at all. -/
theorem capacity_meets {config : Config} {driver : δ} {l : Link δ ω}
    (started : ofConfig config driver = .ok l) {upper : Upper υ ω} {u : υ} {acts : List (Act δ)}
    {s : LinkState δ ω} (meets : Meets upper (u, l) acts s) :
    s.window.pool.free + s.window.length = config.sendBlocks ∧
      s.window.length ≤ config.sendWindow ∧
      ∀ metadata payload,
        let outcome := (s.send metadata payload).1
        let after := (s.send metadata payload).2
        let frame : DataFrame := ⟨s.nextId, metadata, payload⟩
        let blank : Bytes := List.replicate maxSize 0
        (outcome = .ok () ↔ 1 ≤ payload.length ∧ payload.length ≤ 256 ∧ metadata < 2 ^ 24 ∧
          0 < s.sendCapacity) ∧
        (outcome = .ok () →
          frame.encodeInto blank = .ok (frame.image.length, blank.overlay frame.image) ∧
            after.window.frames.map Outgoing.named =
              s.window.frames.map Outgoing.named ++ [(s.nextId, frame.image)] ∧
            after.nextId = (s.nextId + 1) % 2048 ∧ after.sendCapacity + 1 = s.sendCapacity) ∧
        (outcome ≠ .ok () → after = s) := by
  have new := (ofConfig_eq_ok_iff.mp started).2
  obtain ⟨-, stocked⟩ := (LinkState.lasting_stocked upper config).meets meets
    (stocked_ofConfig started)
  obtain ⟨-, small⟩ := (LinkState.lasting_nextId upper).meets meets
    (new ▸ Nat.zero_lt_succ _ : l.state.nextId < FrameId.space)
  refine ⟨stocked.conserved, stocked.fits, ?_⟩
  intro metadata payload outcome after frame blank
  have sendable : outcome = .ok () ↔ s.Sendable metadata payload := LinkState.send_eq_ok_iff
  refine ⟨?_, ?_, ?_⟩
  · rw [sendable]
    constructor
    · rintro ⟨some, short, fits, capacity⟩
      exact ⟨some, short, Nat.lt_succ_of_le fits, capacity⟩
    · rintro ⟨some, short, fits, capacity⟩
      exact ⟨some, short, Nat.le_of_lt_succ fits, capacity⟩
  · intro accepted
    have fit := sendable.mp accepted
    exact ⟨fit.encodeInto_eq small blank List.length_replicate,
      LinkState.send_of_sendable stocked fit⟩
  · intro refused
    rcases LinkState.send_cases s metadata payload with ⟨-, fault, same⟩ | ⟨fit, -⟩
    · exact congrArg Prod.snd same
    · exact absurd (sendable.mpr fit) refused

/-- A layer above that sends every payload back meets the link behind its answer to the first
frame. -/
theorem capacity_echoed :
    let l : Link Wire Remark := ⟨.ofCapacity maxSize, .ofConfig {} {}⟩
    let chunk := DataFrame.image ⟨0, 7, [5]⟩
    ofConfig {} {} = .ok l ∧ ∃ s, Meets echoer ((), l) [.receive chunk] s ∧
      s.window.length = 1 ∧ s.window.pool.free = 31 ∧ (s.send 9 [1]).1 = .ok () ∧
        (s.send 9 [1]).2.sendCapacity = 30 ∧ (s.send 9 []).2 = s := by
  intro l chunk
  have started : ofConfig {} {} = .ok l := ofConfig_eq_ok_iff.mpr ⟨Config.valid_default, rfl⟩
  have noticed : (l.framer.receive chunk).2 =
      [] ++ ⟨{ bytes := 13, dataFrames := 1 }, .frame (.data ⟨0, 7, [5]⟩)⟩ :: [] := by
    decide +kernel
  have calls := @Calls.notice _ _ _ _ echoer ((), l) chunk [] [] _ _ _ [] [] _ noticed rfl
    (.accept (by decide +kernel))
  obtain ⟨s, meets, length, capacity⟩ : ∃ s, Meets echoer ((), l) [.receive chunk] s ∧
      s.window.length = 1 ∧ s.sendCapacity = 31 :=
    ⟨_, @Meets.within _ _ _ _ echoer ((), l) [] _ _ _ _ _ calls (.tail _ (.head _)),
      by decide +kernel, by decide +kernel⟩
  obtain ⟨conserved, -, exact⟩ := capacity_meets started meets
  have blocks : Config.sendBlocks {} = 32 := by decide
  have accepted := (exact 9 [1]).1.mpr (by rw [capacity]; decide)
  have left := ((exact 9 [1]).2.1 accepted).2.2.2
  have refused : (s.send 9 []).1 ≠ .ok () := by
    intro empty
    have some := ((exact 9 []).1.mp empty).1
    cases some
  refine ⟨started, s, meets, length, by omega, accepted, by omega, (exact 9 []).2.2 refused⟩

end Link

end FramedLink
