import FramedLink.Proofs.Transmission

/-! # Gaps in the window

The peer may acknowledge a single frame from the middle of the window. What is left are sends of
the present epoch in their order, and as long as no two of them are further apart than ids reach,
every id names one frame, and acknowledges that frame and those before it. The window bounds how
many frames there are and not how far apart they are, so that gaps can make it wider.
-/

namespace FramedLink

open FramedLink.Frame FramedLink.Journal

/-! ## Frames in the order of their ids -/

namespace SendWindow

/-- The id of every frame lies behind those of the frames after it. -/
def Ordered (frames : List Outgoing) : Prop :=
  frames.Pairwise fun f g => FrameId.distance f.id g.id < 0

private theorem ordered_of_near {frames : List Outgoing} {places : List Nat}
    (named : frames.map (·.id) = places.map (· % FrameId.space))
    (increasing : places.Pairwise (· < ·))
    (near : ∀ p ∈ places, ∀ q ∈ places, q ≤ p + FrameId.reach) : Ordered frames := by
  have ordered : (frames.map (·.id)).Pairwise fun a b => FrameId.distance a b < 0 := by
    rw [named]
    apply List.pairwise_map.mpr
    apply increasing.imp_of_mem
    intro p q first second less
    have close := near p first q second
    have apart : FrameId.distance (p % FrameId.space) (q % FrameId.space) = (p : Int) - q := by
      apply FrameId.distance_eq
      · simp
      · simp
      · omega
      · simp only [FrameId.reach]
        omega
    rw [apart]
    omega
  exact List.pairwise_map.mp ordered

theorem Ordered.nodup {frames : List Outgoing} (ordered : Ordered frames) :
    (frames.map (·.id)).Nodup := by
  apply List.pairwise_map.mpr
  apply ordered.imp
  intro f g behind same
  rw [same, FrameId.distance_self] at behind
  exact Int.lt_irrefl 0 behind

/-- When the frames are ordered by their ids, the id of a frame acknowledges it and the frames
before it. -/
theorem Ordered.ackThrough_eq {w : SendWindow} (ordered : Ordered w.frames)
    {front back : List Outgoing} {f : Outgoing} (frames : w.frames = front ++ f :: back) :
    w.ackThrough f.id = (front.length + 1, w.split (front ++ [f]) back) := by
  rw [frames] at ordered
  obtain ⟨-, rest, before⟩ := List.pairwise_append.mp ordered
  have behind := (List.pairwise_cons.mp rest).1
  have earlier : ∀ g ∈ front, isThrough f.id g := by
    intro g among
    have less := before g among f List.mem_cons_self
    simpa [isThrough] using Int.le_of_lt less
  have itself : isThrough f.id f := by simp [isThrough]
  have later : ∀ g ∈ back, ¬ isThrough f.id g := by
    intro g among
    have less := behind g among
    rw [isThrough, FrameId.distance_comm f.id g.id, decide_eq_true_eq]
    omega
  have released : w.frames.takeWhile (isThrough f.id) = front ++ [f] := by
    rw [frames, List.takeWhile_append_of_pos earlier, List.takeWhile_cons_of_pos itself]
    congr 2
    cases back with
    | nil => rfl
    | cons g rest => exact List.takeWhile_cons_of_neg (later g List.mem_cons_self)
  have kept : w.frames.dropWhile (isThrough f.id) = back := by
    rw [frames, List.dropWhile_append_of_pos earlier, List.dropWhile_cons_of_pos itself]
    cases back with
    | nil => rfl
    | cons g rest => exact List.dropWhile_cons_of_neg (later g List.mem_cons_self)
  obtain ⟨newest, last, among⟩ : ∃ newest,
      w.frames.getLast? = some newest ∧ newest ∈ f :: back := by
    refine ⟨(f :: back).getLast (by simp), ?_, List.getLast_mem _⟩
    rw [frames, List.getLast?_append, List.getLast?_eq_some_getLast (by simp)]
    rfl
  have upTo : ¬ 0 < FrameId.distance f.id newest.id := by
    rcases List.mem_cons.mp among with rfl | after
    · rw [FrameId.distance_self]
      exact Int.lt_irrefl 0
    · have less := behind newest after
      omega
  unfold ackThrough
  rw [last]
  simp only [upTo, if_false, released, kept, List.length_append, List.length_singleton]

end SendWindow

namespace Link

variable {δ ω υ : Type} [Driver δ] (upper : Upper υ ω)

/-- After whatever was done with a link, the frames of its window are what was sent at their places
in the present epoch, and these increase. As long as they are no further apart than ids reach, the
ids are distinct, and an acknowledgement with the id of a frame releases that frame and those before
it. -/
theorem placed_acts {config : Config} {driver : δ} {l : Link δ ω}
    (started : ofConfig config driver = .ok l) (u : υ) (acts : List (Act δ)) :
    let s := (Link.acts upper (u, l) acts).2.state
    let places := s.window.frames.map (·.place)
    places.Pairwise (· < ·) ∧
      (∀ f ∈ s.window.frames, Placed (present s.journal).sends f) ∧
      s.window.entered = (present s.journal).sends.length ∧
      ((∀ p ∈ places, ∀ q ∈ places, q ≤ p + FrameId.reach) →
        (s.window.frames.map (·.id)).Nodup ∧
          ∀ front f back, s.window.frames = front ++ f :: back → ∀ u : υ,
            s.takeControl upper u ⟨.ackAll, f.id⟩ =
              { s with window := s.window.split (front ++ [f]) back }.acknowledge upper u
                (front.length + 1)) := by
  intro s places
  obtain ⟨-, tracing⟩ := traces_acts upper started u acts
  refine ⟨tracing.increasing, fun f among => (tracing.traced f among).toPlaced, tracing.entered, ?_⟩
  intro near
  have named : s.window.frames.map (·.id) = places.map (· % FrameId.space) := by
    rw [List.map_map]
    exact List.map_congr_left fun f among => (tracing.traced f among).id
  have ordered := SendWindow.ordered_of_near named tracing.increasing near
  refine ⟨ordered.nodup, ?_⟩
  intro front f back frames u
  simp only [LinkState.takeControl, ordered.ackThrough_eq frames]

end Link

/-- The frame in the middle of three is acknowledged alone. -/
theorem Link.placed_gap :
    let acts : List (Act Simulation.Wire) := [.send 7 [1], .send 7 [2], .send 7 [3],
      .receive (ControlFrame.image ⟨.ackOne, 1⟩)]
    let l : Link Simulation.Wire Simulation.Remark := ⟨.ofCapacity maxSize, .ofConfig {} {}⟩
    let s := (Link.acts Simulation.silent ((), l) acts).2.state
    Link.ofConfig {} {} = .ok l ∧ s.window.frames.map (·.id) = [0, 2] ∧
      s.window.frames.map (·.place) = [0, 2] ∧
      ∀ front f back, s.window.frames = front ++ f :: back →
        s.takeControl Simulation.silent () ⟨.ackAll, f.id⟩ =
          { s with window := s.window.split (front ++ [f]) back }.acknowledge Simulation.silent ()
            (front.length + 1) := by
  intro acts l s
  have started : Link.ofConfig {} {} = .ok l :=
    ofConfig_eq_ok_iff.mpr ⟨Config.valid_default, rfl⟩
  obtain ⟨-, -, -, identified⟩ := placed_acts Simulation.silent started () acts
  have near : ∀ p ∈ s.window.frames.map (·.place), ∀ q ∈ s.window.frames.map (·.place),
      q ≤ p + FrameId.reach := by decide +kernel
  refine ⟨started, by decide +kernel, by decide +kernel, ?_⟩
  intro front f back frames
  exact (identified near).2 front f back frames ()

/-! ## Windows that are too wide -/

private theorem SendWindow.ackOne_newest {w : SendWindow} {front : List Outgoing} {f : Outgoing}
    (frames : w.frames = front ++ [f]) (absent : ∀ g ∈ front, g.id ≠ f.id) :
    w.ackOne f.id = (true, w.split [f] front) := by
  have others : ∀ g ∈ front, ¬ decide (g.id = f.id) = true := by
    intro g among
    rw [decide_eq_true_eq]
    exact absent g among
  have found : w.frames.find? (fun g => decide (g.id = f.id)) = some f := by
    rw [frames, List.find?_append, List.find?_eq_none.mpr others]
    simp
  have left : w.frames.eraseP (fun g => decide (g.id = f.id)) = front := by
    rw [frames, List.eraseP_append_right _ others]
    simp
  unfold ackOne
  rw [found]
  simp only [left]

/-- A frame that waits, as it is put into the window at this place. -/
def Outgoing.waiting (place : Nat) : Outgoing where
  id := place % FrameId.space
  buffer := Buffer.fill { block := List.replicate maxSize 0 }
    (DataFrame.image ⟨place % FrameId.space, 0, [0]⟩)
  place := place

private theorem Outgoing.image_waiting (place : Nat) :
    (Outgoing.waiting place).image = DataFrame.image ⟨place % FrameId.space, 0, [0]⟩ := by
  apply Buffer.contents_fill
  rw [DataFrame.length_image, Buffer.capacity, List.length_replicate]
  exact (by decide : 1 + overhead ≤ maxSize)

private theorem Outgoing.capacity_waiting (id : Nat) :
    (Outgoing.waiting id).buffer.capacity = maxSize := by
  have blank : Buffer.capacity { block := List.replicate maxSize 0 } = maxSize :=
    List.length_replicate
  exact (Buffer.capacity_fill _ _).trans blank

namespace LinkState

variable {δ ω υ : Type} [Driver δ]

theorem flush_full {s : LinkState δ ω} (none : s.control.waiting = [])
    (full : ∀ f ∈ s.window.frames, s.space < f.image.length) : s.flush = s := by
  have pending (now : Nat) (frames : List Outgoing)
      (full : ∀ f ∈ frames, s.space < f.image.length) : handPending now frames s = (frames, s) := by
    induction frames with
    | nil => rfl
    | cons f rest ih =>
      rw [handPending, if_pos (full f List.mem_cons_self)]
      split
      · rw [ih fun g among => full g (List.mem_cons_of_mem _ among)]
      · rfl
  unfold flush
  rw [none, handControls]
  simp only [pending _ _ full]
  rw [← none]

/-- Over a driver without space, the frames at these places wait, and nothing else does. -/
structure Waits (s : LinkState δ ω) (places : List Nat) (sent : Nat) : Prop where
  window : s.window = ⟨32, places.map .waiting, ⟨maxSize, 32, 32 - places.length⟩, sent⟩
  nextId : s.nextId = sent % FrameId.space
  control : s.control.waiting = []
  connected : s.disconnected = false
  space : s.space = 0

namespace Waits

variable {s : LinkState δ ω} {places : List Nat} {sent : Nat}

theorem flush (h : s.Waits places sent) : s.flush.Waits places sent := by
  have same : s.flush = s := by
    apply flush_full h.control
    rw [h.window, h.space]
    intro f among
    obtain ⟨place, -, rfl⟩ := List.mem_map.mp among
    rw [Outgoing.image_waiting, DataFrame.length_image]
    exact Nat.succ_pos _
  rw [same]
  exact h

theorem send (h : s.Waits places sent) (room : places.length < 32) :
    (s.send 0 [0]).2.Waits (places ++ [sent]) (sent + 1) := by
  obtain ⟨free, lent⟩ : ∃ free, 32 - places.length = free + 1 := ⟨31 - places.length, by omega⟩
  have left : 32 - (places ++ [sent]).length = free := by
    rw [List.length_append, List.length_singleton]
    omega
  have window : s.window = ⟨32, places.map .waiting, ⟨maxSize, 32, free + 1⟩, sent⟩ := by
    rw [← lent]
    exact h.window
  have notFull : s.window.isFull = false := by
    rw [window, SendWindow.isFull, SendWindow.length, List.length_map]
    exact decide_eq_false (Nat.not_le_of_lt room)
  have pushed : s.window.push s.nextId (DataFrame.image ⟨s.nextId, 0, [0]⟩) =
      some ⟨32, (places ++ [sent]).map .waiting, ⟨maxSize, 32, free⟩, sent + 1⟩ := by
    rw [window, h.nextId, List.map_append]
    rfl
  unfold LinkState.send
  simp only [notFull, pushed]
  apply flush
  exact {
    window := by
      rw [left]
      rfl
    nextId := (congrArg FrameId.next h.nextId).trans (Nat.mod_add_mod _ _ _)
    control := h.control
    connected := h.connected
    space := h.space }

theorem ackOne {place : Nat} (h : s.Waits (places ++ [place]) sent)
    (other : ∀ p ∈ places, p % FrameId.space ≠ place % FrameId.space) (room : places.length < 32)
    (upper : Upper υ ω) (u : υ) :
    (s.takeControl upper u ⟨.ackOne, place % FrameId.space⟩).2.Waits places sent := by
  have newest : s.window.frames = places.map Outgoing.waiting ++ [.waiting place] := by
    rw [h.window, List.map_append]
    rfl
  have absent : ∀ f ∈ places.map Outgoing.waiting, f.id ≠ (Outgoing.waiting place).id :=
    List.forall_mem_map.mpr other
  have back : s.window.pool.releaseAll [(Outgoing.waiting place).buffer] =
      ⟨maxSize, 32, 32 - places.length⟩ := by
    rw [h.window, List.length_append, List.length_singleton, Pool.releaseAll_eq]
    · simp only [List.length_singleton]
      congr 1
      omega
    · intro b among
      rw [List.mem_singleton.mp among]
      exact Outgoing.capacity_waiting place
    · simp only [List.length_singleton]
      omega
  have released : s.window.ackOne (place % FrameId.space) =
      (true, ⟨32, places.map .waiting, ⟨maxSize, 32, 32 - places.length⟩, sent⟩) := by
    have split := SendWindow.ackOne_newest newest absent
    rw [SendWindow.split, List.map_singleton, back, h.window] at split
    rw [h.window]
    exact split
  simp only [takeControl, released, acknowledge, note, h.connected]
  exact {
    window := rfl
    nextId := h.nextId
    control := h.control
    connected := rfl
    space := h.space }

/-- A cumulative acknowledgement that seems to lie beyond the newest frame is passed over. -/
theorem ackAll {id newest : Nat} (h : s.Waits (places ++ [newest]) sent)
    (beyond : 0 < FrameId.distance id (newest % FrameId.space)) (upper : Upper υ ω) (u : υ) :
    (s.takeControl upper u ⟨.ackAll, id⟩).2.Waits (places ++ [newest]) sent := by
  have last : s.window.frames.getLast? = some (.waiting newest) := by
    rw [h.window, List.map_append]
    exact List.getLast?_concat
  have kept : s.window.ackThrough id = (0, s.window) := by
    unfold SendWindow.ackThrough
    rw [last]
    exact if_pos beyond
  simp only [takeControl, kept, acknowledge]
  exact h

end Waits

end LinkState

namespace Link

variable {δ ω υ : Type} [Driver δ] (upper : Upper υ ω) {places : List Nat} {sent : Nat}

/-- Between two frames of the peer, the frames at these places wait. -/
structure Waits (l : Link δ ω) (places : List Nat) (sent : Nat) : Prop where
  settled : l.framer.Settled
  buffer : l.framer.buffer = []
  state : l.state.Waits places sent

theorem waits_ofConfig {driver : δ} (space : Driver.space driver = 0) :
    Waits (ω := ω) ⟨.ofCapacity maxSize, .ofConfig {} driver⟩ [] 0 where
  settled := Framing.Framer.settled_ofCapacity maxSize
  buffer := rfl
  state := ⟨rfl, rfl, rfl, rfl, space⟩

theorem Waits.send {l : Link δ ω} (h : l.Waits places sent) (room : places.length < 32) :
    (l.send 0 [0]).2.Waits (places ++ [sent]) (sent + 1) :=
  ⟨h.settled, h.buffer, h.state.send room⟩

theorem Waits.receive {l : Link δ ω} (h : l.Waits places sent) {f : ControlFrame}
    (small : f.id ≤ maxId) {left : List Nat} {u : υ}
    (taken : ∀ s : LinkState δ ω, s.Waits places sent →
      (s.takeControl upper u f).2.Waits left sent) :
    (l.receive upper u f.image).2.Waits left sent := by
  have valid : (Frame.control f).Valid := small
  obtain ⟨counters, notices, settled, buffer⟩ :=
    Framing.Framer.receive_image h.settled h.buffer valid
  change (l.receive upper u (Frame.image (.control f))).2.Waits left sent
  unfold Link.receive
  simp only [notices, List.foldl_cons, List.foldl_nil, LinkState.takeNotice]
  refine ⟨settled, buffer, LinkState.Waits.flush ?_⟩
  have before := taken { l.state with status := l.state.status.withCounters counters }
    ⟨h.state.window, h.state.nextId, h.state.control, h.state.connected, h.state.space⟩
  exact ⟨before.window, before.nextId, before.control, before.connected, before.space⟩

private theorem Waits.map_id {l : Link δ ω} (h : l.Waits places sent) :
    l.state.window.frames.map (·.id) = places.map (· % FrameId.space) := by
  rw [h.state.window, List.map_map]
  rfl

private theorem Waits.passes_over {l : Link δ ω} (earlier : List Nat) {newest : Nat}
    (h : l.Waits (earlier ++ [newest]) sent) {id : Nat} (small : id ≤ maxId)
    (beyond : 0 < FrameId.distance id (newest % FrameId.space)) (u : υ) :
    (l.receive upper u (ControlFrame.image ⟨.ackAll, id⟩)).2.state.window = l.state.window := by
  have after := h.receive upper (f := ⟨.ackAll, id⟩) (u := u) small fun s waits =>
    waits.ackAll beyond upper u
  rw [after.state.window, h.state.window]

/-- One frame, and then so many that are each acknowledged alone as soon as they are sent. -/
def overtaking (rounds : Nat) : List (Act δ) :=
  .send 0 [0] :: (List.range rounds).flatMap fun before =>
    [.send 0 [0], .receive (ControlFrame.image ⟨.ackOne, before + 1⟩)]

/-- The ids of one round can be given while a frame waits. -/
theorem waits_overtaking {l : Link δ ω} (h : l.Waits [] 0) (u : υ) (rounds : Nat)
    (few : rounds < FrameId.space) :
    (Link.acts upper (u, l) (overtaking rounds)).2.Waits [0] (rounds + 1) := by
  induction rounds with
  | zero => exact h.send (by decide)
  | succ rounds ih =>
    have before := ih (Nat.lt_of_succ_lt few)
    have more : overtaking (δ := δ) (rounds + 1) = overtaking rounds ++
        [.send 0 [0], .receive (ControlFrame.image ⟨.ackOne, rounds + 1⟩)] := by
      simp [overtaking, List.range_succ]
    rw [more, Link.acts, List.foldl_append]
    apply (before.send (by decide)).receive
    · exact Nat.le_of_lt_succ few
    · intro s waits
      have small : (rounds + 1) % FrameId.space = rounds + 1 := Nat.mod_eq_of_lt few
      have taken (u : υ) := waits.ackOne (by simp [small]) (by decide) upper u
      rw [small] at taken
      exact taken _

private theorem waits_overtaken {l : Link δ ω} (h : l.Waits [] 0) (u : υ) (rounds : Nat)
    (few : rounds < FrameId.space) :
    (Link.acts upper (u, l) (overtaking rounds ++ [.send 0 [0]])).2.Waits
      [0, rounds + 1] (rounds + 2) := by
  rw [Link.acts, List.foldl_append]
  exact (waits_overtaking upper h u rounds few).send (by decide)

/-- While the oldest frame waits, the ids go on. When half of them are given, the frame cannot be
acknowledged any more by its id, and when all are given, two frames of the window have the same. -/
theorem overtaken :
    let l : Link Simulation.Wire Simulation.Remark :=
      ⟨.ofCapacity maxSize, .ofConfig {} { budget := some 0 }⟩
    Link.ofConfig {} { budget := some 0 } = .ok l ∧
      (let half := (Link.acts Simulation.silent ((), l) (overtaking 1023 ++ [.send 0 [0]])).2
       half.state.window.frames.map (·.id) = [0, 1024] ∧
        (half.receive Simulation.silent () (ControlFrame.image ⟨.ackAll, 0⟩)).2.state.window =
          half.state.window) ∧
      (let whole := (Link.acts Simulation.silent ((), l) (overtaking 2047 ++ [.send 0 [0]])).2
       whole.state.window.frames.map (·.id) = [0, 0]) := by
  intro l
  have started : Link.ofConfig {} { budget := some 0 } = .ok l :=
    ofConfig_eq_ok_iff.mpr ⟨Config.valid_default, rfl⟩
  have fresh : l.Waits [] 0 := waits_ofConfig rfl
  have half := waits_overtaken Simulation.silent fresh () 1023 (by decide)
  have whole := waits_overtaken Simulation.silent fresh () 2047 (by decide)
  refine ⟨started, ⟨half.map_id, ?_⟩, whole.map_id⟩
  exact half.passes_over Simulation.silent [0] (Nat.zero_le _) (by decide) ()

end Link

end FramedLink
