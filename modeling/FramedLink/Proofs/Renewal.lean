import FramedLink.Proofs.Flushing
import FramedLink.Proofs.InOrder

/-! # Links that begin anew

When a link begins anew, its ids count from the start again, and nothing in a frame tells whether it
is of the time before. An old acknowledgement that arrives afterwards is taken for one of a new
frame. As long as a link that has begun anew takes nothing but the responses to its requests before
the last of these has come, every frame that counts as acknowledged was delivered.
-/

namespace FramedLink

open FramedLink.Frame FramedLink.Journal
open Simulation (Side)

variable {δ υ ω : Type}

/-! ## Orderly moves -/

/-- How often items say that a link has begun anew. -/
def responseCount (items : List Bytes) : Nat := items.count Packet.response.image

/-- As long as responses are awaited, the items are nothing else. -/
def Awaits : (awaiting : Nat) → List Bytes → Prop
  | _, [] => True
  | awaiting, item :: rest =>
    if item = Packet.response.image then Awaits (awaiting - 1) rest
    else awaiting = 0 ∧ Awaits awaiting rest

instance decidableAwaits : ∀ awaiting items, Decidable (Awaits awaiting items)
  | _, [] => inferInstanceAs (Decidable True)
  | awaiting, item :: rest =>
    have := decidableAwaits (awaiting - 1) rest
    have := decidableAwaits awaiting rest
    inferInstanceAs (Decidable (if item = _ then _ else _))

namespace Pair

/-- Nothing is lost and nothing comes in between, the drivers have space, and a link begins anew
between the frames that arrive at it. As long as a side waits for the responses to its requests, no
other frame arrives. -/
def Admits [Driver δ] (p : Pair δ υ ω) (awaiting : Side → Nat) : Move δ → Prop
  | .send .. | .process _ => True
  | .tune _ driver => Driver.Ready 0 driver
  | .deliver source count => Awaits (awaiting source.other) ((p source).line.completed count)
  | .lose .. | .disturb .. => False
  | .reset side => (p side.other).line.arrived = 0

instance [Driver δ] (p : Pair δ υ ω) (awaiting : Side → Nat) (source : Side) (count : Nat) :
    Decidable (p.Admits awaiting (.deliver source count)) := decidableAwaits _ _

instance [Driver δ] (p : Pair δ υ ω) (awaiting : Side → Nat) (side : Side) :
    Decidable (p.Admits awaiting (.reset side)) := Nat.decEq _ 0

/-- How many responses the sides wait for after a move. -/
def awaitingAfter (p : Pair δ υ ω) (awaiting : Side → Nat) : Move δ → Side → Nat
  | .deliver source count => fun side =>
    if side = source.other then
      awaiting source.other - responseCount ((p source).line.completed count)
    else awaiting side
  | .reset one => fun side => if side = one then awaiting one + 1 else awaiting side
  | _ => awaiting

/-- Every one of the moves is admitted where it is made. -/
def Orderly [Driver δ] (uppers : Side → Upper υ ω) :
    Pair δ υ ω → (awaiting : Side → Nat) → List (Move δ) → Prop
  | _, _, [] => True
  | p, awaiting, move :: rest =>
    p.Admits awaiting move ∧
      Orderly uppers (p.step uppers move) (p.awaitingAfter awaiting move) rest

end Pair

/-! ## Responses by their bytes -/

theorem Item.bytes_eq_response_iff {item : Item} (valid : item.Valid) :
    item.bytes = Packet.response.image ↔ item = .packet .response := by
  constructor
  · intro same
    cases item with
    | packet packet =>
      exact congrArg Item.packet
        (Packet.eq_response (image_injective valid Packet.valid_response same))
    | noise bytes =>
      have begins : start1 ∈ Packet.response.image := by decide
      rw [← same] at begins
      exact absurd begins valid
  · rintro rfl
    rfl

private theorem responses_packets {items : List Item} (valid : ∀ item ∈ items, item.Valid) :
    responses (packets items) = responseCount (items.map Item.bytes) := by
  induction items with
  | nil => rfl
  | cons item rest ih =>
    have later := ih fun other among => valid other (List.mem_cons_of_mem _ among)
    have here := Item.bytes_eq_response_iff (valid item List.mem_cons_self)
    rw [responseCount, List.map_cons, List.count_cons]
    change _ = responseCount _ + _
    rw [← later]
    cases item with
    | packet packet =>
      rw [Item.packet.injEq] at here
      simp only [beq_iff_eq, here]
      exact responses_cons packet (packets rest)
    | noise =>
      rw [if_neg (by simp [here])]
      rfl

private theorem patient_of_awaits {items : List Item} (valid : ∀ item ∈ items, item.Valid)
    {awaiting : Nat} (awaits : Awaits awaiting (items.map Item.bytes)) :
    Patient awaiting (packets items) := by
  induction items generalizing awaiting with
  | nil => trivial
  | cons item rest ih =>
    have later := fun other among => valid other (List.mem_cons_of_mem item among)
    have here := Item.bytes_eq_response_iff (valid item List.mem_cons_self)
    rw [List.map_cons, Awaits] at awaits
    cases item with
    | packet packet =>
      simp only [here, Item.packet.injEq] at awaits
      change Patient awaiting (packet :: packets rest)
      by_cases response : packet = .response
      · rw [if_pos response] at awaits
        exact ⟨fun other => absurd response other, by rw [if_pos response]; exact ih later awaits⟩
      · rw [if_neg response] at awaits
        exact ⟨fun _ => awaits.1, by rw [if_neg response]; exact ih later awaits.2⟩
    | noise bytes =>
      simp only [here, reduceCtorEq, if_false] at awaits
      exact ih later awaits.2

/-! ## A link begins anew -/

theorem ControlQueue.push_clear (q : ControlQueue) (f : ControlFrame) :
    q.clear.push f = { q with waiting := [f] } := by
  unfold push
  split
  · rfl
  · split <;> rfl

private theorem LinkState.flush_single [Driver δ] {s : LinkState δ ω} {f : ControlFrame}
    (waiting : s.control.waiting = [f]) (empty : s.window.frames = [])
    (fits : controlSize ≤ s.space) :
    s.flush = { s.hand f.image with
      status.tx.controlFrames := s.status.tx.controlFrames + 1
      control.waiting := [] } := by
  unfold flush
  rw [waiting, handControls, if_neg (Nat.not_lt_of_le fits), handControls]
  obtain ⟨config, driver, ⟨capacity, frames, pool⟩, receiver, nextId, control, status, disconnected,
    journal⟩ := s
  obtain rfl : frames = [] := empty
  rfl

/-- A link that begins anew has forgotten its frames, and its request is handed over. -/
theorem Link.state_reset [Driver δ] (l : Link δ ω) (fits : controlSize ≤ l.state.space) :
    l.reset.state =
      { l.state.clear with
        driver := Driver.send l.state.driver Packet.request.image
        status := { tx := { bytes := 0 + Packet.request.image.length, controlFrames := 1 } }
        disconnected := false
        journal := .left (.handed Packet.request.image) :: .restarted :: .cleared ::
          l.state.journal } := by
  unfold reset
  simp only [LinkState.queue, LinkState.note, LinkState.clear, ControlQueue.push_clear]
  exact LinkState.flush_single rfl rfl fits

theorem Link.follows_reset [Driver δ] (l : Link δ ω) (items : List Item) :
    Follows l.reset.framer items 0 := by
  have settled := Framing.Framer.settled_reset l.framer
  refine ⟨⟨settled.consistent, settled.position⟩, .inl rfl, ?_⟩
  rw [Item.keptOf_zero]
  exact Framing.Framer.buffer_reset _

theorem Books.restart {journal : List (Entry ω)} {window : SendWindow}
    {nextId expected acknowledged : Nat}
    (h : Books journal window nextId expected acknowledged) :
    Books (.restarted :: journal) window nextId expected 0 := by
  have same : outstanding (.restarted :: journal) = outstanding journal := by
    simp only [outstanding, present_restarted, clears]
  exact {
    window := same ▸ h.window
    released := by
      rw [present_restarted]
      exact h.released
    nextId := by
      rw [present_restarted]
      exact h.nextId
    expected := by
      rw [present_restarted]
      exact h.expected
    acknowledged := rfl }

namespace Pair

variable {resets : Nat} {awaiting : Side → Nat} {p : Pair δ υ ω} {items : Side → List Item}
  {waiting : Side → List Packet}

variable [Driver δ]

/-- A link that begins anew between two frames agrees with its peer on another epoch. -/
theorem Consistent.reset (h : p.Consistent resets awaiting items waiting) (side : Side) {due : Nat}
    (ready : Driver.Ready due (p side).line) (unopened : (p side.other).line.arrived = 0) :
    (p.change side fun s => { s with link := s.link.reset }).Agreed (resets + 1) fun one =>
      if one = side then awaiting side + 1 else awaiting one := by
  have carries := h.carries side
  -- The answers that wait give way, and the request comes behind all that is on the line.
  have thinned : Thinned (packets (items side) ++ waiting side) (packets (items side)) :=
    carries.thinned
  have fits : controlSize ≤ (p side).link.state.space :=
    Nat.le_trans (show controlSize ≤ maxSize by decide) ready.space
  have after : ((p side).link.reset.state).Satisfies (items side) (p side).line.arrived
      fun journal way =>
        Agrees (resets + 1)
          (.of (awaiting side.other) (p side.other).journal
            (packets (items side.other) ++ waiting side.other))
          (awaiting side + 1) journal way ∧ True := by
    rw [Link.state_reset _ fits]
    refine ⟨(h.books side).clear.restart.idle trivial, items side ++ [.packet .request], [], ?_, ?_,
      trivial⟩
    · have kept : Carries (items side) (p side).line.arrived (p side).line [] (items side) [] :=
        carries.drain
      exact kept.hand Packet.valid_request rfl fun _ => id
    · have agree := Agrees.restart (h.agree side) thinned
      rw [packets_append, List.append_nil]
      exact agrees_tolerant.idle agree trivial
  -- The framer forgets nothing, since the peer's next frame has not begun to arrive.
  have framer : Follows (p side).link.reset.framer (items side.other)
      (p side.other).line.arrived := unopened ▸ (p side).link.follows_reset (items side.other)
  obtain ⟨items', waiting', consistent, -⟩ : ∃ items' waiting',
      (p.change side fun s => { s with link := s.link.reset }).Consistent (resets + 1)
        (fun one => if one = side then awaiting side + 1 else awaiting one) items' waiting' ∧ _ :=
    h.change (X := fun _ _ => True) side _ (if_neg (Side.other_ne side)) framer
      (by simpa only [if_true] using after)
  exact ⟨items', waiting', consistent⟩

/-! ## Orderly runs -/

structure Renewing (awaiting : Side → Nat) (p : Pair δ υ ω) : Prop where
  agreed : ∃ resets, p.Agreed resets awaiting
  ready : ∀ side, Driver.Ready 0 (p side).line.driver

private theorem ready_change {p : Pair δ υ ω} (ready : ∀ side, Driver.Ready 0 (p side).line.driver)
    (side : Side) {f : Station δ υ ω → Station δ υ ω}
    (here : Driver.Ready 0 (f (p side)).line.driver) (one : Side) :
    Driver.Ready 0 (p.change side f one).line.driver := by
  rcases Side.eq_or_other_eq side one with rfl | rfl
  · rw [change_same]
    exact here
  · rw [change_of_ne _ (Side.other_ne side)]
    exact ready _

private theorem Renewing.ready_step (h : p.Renewing awaiting) (uppers : Side → Upper υ ω)
    {move : Move δ} (admitted : p.Admits awaiting move) (side : Side) :
    Driver.Ready 0 (p.step uppers move side).line.driver := by
  have line (side : Side) : Driver.Ready 0 (p side).line := ready_line.mpr (h.ready side)
  cases move with
  | send one metadata payload =>
    refine ready_change h.ready one ?_ side
    exact ready_line.mp (LinkState.ready_send (line one) metadata payload)
  | process one =>
    refine ready_change h.ready one ?_ side
    exact ready_line.mp (Link.ready_process (line one) _ _)
  | tune one driver =>
    refine ready_change h.ready one ?_ side
    exact admitted
  | deliver source count =>
    have other := Side.other_ne source
    refine ready_change (ready_change h.ready source (h.ready source)) source.other ?_ side
    rw [change_of_ne _ other]
    exact ready_line.mp (Link.receive_ready (line source.other) _ _ _).2
  | lose | disturb => cases admitted
  | reset one =>
    refine ready_change h.ready one ?_ side
    have fits : controlSize ≤ (p one).link.state.space :=
      Nat.le_trans (show controlSize ≤ maxSize by decide) (line one).space
    change Driver.Ready 0 (p one).link.reset.state.driver.driver
    rw [Link.state_reset _ fits]
    exact (h.ready one).send _

/-- Links that agree go on agreeing with every move that is admitted. -/
theorem Renewing.step (h : p.Renewing awaiting) (uppers : Side → Upper υ ω) {move : Move δ}
    (admitted : p.Admits awaiting move) :
    (p.step uppers move).Renewing (p.awaitingAfter awaiting move) := by
  refine ⟨?_, h.ready_step uppers admitted⟩
  obtain ⟨resets, items, waiting, consistent⟩ := h.agreed
  cases move with
  | send side metadata payload => exact ⟨resets, consistent.send side metadata payload⟩
  | process side => exact ⟨resets, consistent.process uppers side⟩
  | tune side driver => exact ⟨resets, consistent.tune side driver⟩
  | deliver source count =>
    have completed {front back : List Item} {n : Nat}
        (completes : Completes (items source) ((p source).line.arrived + count) front back n) :
        (p source).line.completed count = front.map Item.bytes ∧ ∀ item ∈ front, item.Valid := by
      have carries := consistent.carries source
      refine ⟨?_, fun item among => carries.valid item ?_⟩
      · rw [Line.completed, carries.carried, completes.complete]
      · rw [completes.split]
        exact List.mem_append_left _ among
    obtain ⟨front, back, n, completes, agreed⟩ :=
      consistent.deliver uppers source count fun front back n completes => by
        obtain ⟨bytes, valid⟩ := completed completes
        exact patient_of_awaits valid (bytes ▸ admitted)
    obtain ⟨bytes, valid⟩ := completed completes
    rw [responses_packets valid, ← bytes] at agreed
    exact ⟨resets, agreed⟩
  | lose | disturb => cases admitted
  | reset side =>
    exact ⟨resets + 1, consistent.reset side (ready_line.mpr (h.ready side)) admitted⟩

theorem Renewing.run (h : p.Renewing awaiting) (uppers : Side → Upper υ ω) {moves : List (Move δ)}
    (orderly : Orderly uppers p awaiting moves) :
    ∃ awaiting', (p.run uppers moves).Renewing awaiting' := by
  induction moves generalizing p awaiting with
  | nil => exact ⟨awaiting, h⟩
  | cons move rest ih => exact ih (h.step uppers orderly.1) orderly.2

-- A data frame of the time before is delivered in place of the first new one, which then counts as
-- acknowledged by it.
example :
    let p : Pair Simulation.Wire Unit Unit := fresh (fun _ => {}) (fun _ => {}) fun _ => ()
    let q := p.run (fun _ => idleUpper) [.send .b 1 [1], .reset .a, .deliver .b 13, .deliver .a 8,
      .send .b 2 [2], .deliver .a 8]
    ofEpoch 1 (q .b).journal = { sends := [(2, [2])], releases := 1 } ∧
      (tally (q .a).journal).deliveries = [(1, [1])] := by
  decide +kernel

-- Both sides begin anew at once, and one of them delivers a frame that the other forgets.
example :
    let p : Pair Simulation.Wire Unit Unit := fresh (fun _ => {}) (fun _ => {}) fun _ => ()
    let q := p.run (fun _ => idleUpper) [.reset .a, .send .a 1 [1], .reset .b, .deliver .b 8,
      .send .a 2 [2], .deliver .a 8, .deliver .a 13, .deliver .b 8, .deliver .b 8]
    ofEpoch 2 (q .a).journal = { sends := [(2, [2])], releases := 1 } ∧
      (tally (q .b).journal).deliveries = [(1, [1])] := by
  decide +kernel

-- A link begins anew in the midst of a frame, and finds an acknowledgement in the payload that is
-- left of it.
example :
    let p : Pair Simulation.Wire Unit Unit := fresh (fun _ => {}) (fun _ => {}) fun _ => ()
    let acknowledgement : Bytes := ControlFrame.image ⟨.ackAll, 0⟩
    let q := p.run (fun _ => idleUpper) [.send .b 1 ([0] ++ acknowledgement ++ [0]), .deliver .b 8,
      .reset .a, .send .a 2 [2], .deliver .b 10]
    ofEpoch 1 (q .a).journal = { sends := [(2, [2])], releases := 1 } ∧
      (tally (q .b).journal).deliveries = [] := by
  decide +kernel

end Pair

end FramedLink
