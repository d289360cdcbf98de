import FramedLink.Link.Sink
import FramedLink.Proofs.PairAgreement

/-! # Every frame arrives once and in order

Two links that are not begun anew deliver a first part of what the other side accepted, each frame
once and in order, whatever the lines lose and whenever bytes arrive. What counts as acknowledged
has arrived, and the window holds exactly the rest.
-/

namespace FramedLink

open FramedLink.Frame FramedLink.Journal
open Simulation (Side)

variable {δ υ ω : Type}

/-! ## What arrives of it -/

/-- The ids and the images of frames of which the first is at the place `first`. -/
def framed : (first : Nat) → List (Nat × Bytes) → List (Nat × Bytes)
  | _, [] => []
  | first, (metadata, payload) :: rest =>
    let id := first % FrameId.space
    (id, DataFrame.image ⟨id, metadata, payload⟩) :: framed (first + 1) rest

theorem SendWindow.Holds.framed_eq {w : SendWindow} {epoch first : Nat}
    {frames : List (Nat × Bytes)} (h : w.Holds (Packet.series epoch first frames)) :
    w.frames.map (fun f => (f.id, f.image)) = framed first frames := by
  have stores := h.stores
  generalize w.frames = held at stores
  clear h
  induction frames generalizing first held with
  | nil =>
    cases stores
    rfl
  | cons frame rest ih =>
    cases stores with
    | cons here later =>
      obtain ⟨data, same, id⟩ := here.id
      cases same
      rw [List.map_cons, ih _ later, framed, here.image, id]
      rfl

/-- How far the frames that one side accepted have come: `received` of them have arrived at the
peer, and `acknowledged` of them count as acknowledged. -/
structure Transfers (acknowledged received : Nat) (source peer : Station δ υ ω) : Prop where
  arrived : acknowledged ≤ received
  accepted : received ≤ (tally source.journal).sends.length
  delivers : (tally peer.journal).deliveries = (tally source.journal).sends.take received
  holds : source.link.state.window.frames.map (fun f => (f.id, f.image)) =
    framed acknowledged ((tally source.journal).sends.drop acknowledged)
  counted : source.link.status.tx.dataFrames = acknowledged

namespace Pair

variable {p : Pair δ υ ω}

/-- What one side delivered is a first part of what the other accepted, and nothing is released that
was not delivered. -/
theorem Consistent.tallies {awaiting : Side → Nat} {items : Side → List Item}
    {waiting : Side → List Packet} (h : p.Consistent 0 awaiting items waiting) (side : Side) :
    (tally (p side.other).journal).deliveries <+: (tally (p side).journal).sends ∧
      (tally (p side).journal).releases ≤ (tally (p side.other).journal).deliveries.length := by
  have back := (h.agree side).back
  have delivers := back.delivers 0
  have releases := back.releases 0
  simp only [View.of, ofEpoch, part_zero (h.clears_eq_zero _)] at delivers releases
  exact ⟨delivers, releases⟩

theorem Agreed.transfers (h : p.Agreed 0 fun _ => 0) (side : Side) :
    ∃ acknowledged received, Transfers acknowledged received (p side) (p side.other) := by
  obtain ⟨items, waiting, h⟩ := h
  obtain ⟨delivers, releases⟩ := h.tallies side
  have held := (h.books side).window
  rw [outstanding, present_eq_tally (h.clears_eq_zero side)] at held
  have restarts := (Nat.add_eq_zero_iff.mp ((h.agree side).restarts rfl)).2
  refine ⟨_, _, releases, delivers.length_le, List.prefix_iff_eq_take.mp delivers, held.framed_eq,
    ?_⟩
  exact (h.books side).acknowledged.trans (counted_eq_releases restarts)

/-- As long as neither of two links is begun anew, each delivers a first part of what the other
accepted, once and in order, and nothing counts as acknowledged that was not delivered. -/
theorem transfers_run [Driver δ] {config : Side → Config} {driver : Side → δ} {upper : Side → υ}
    (started : start config driver upper = .ok p) (uppers : Side → Upper υ ω)
    {moves : List (Move δ)} (plain : ∀ move ∈ moves, move.Plain) (side : Side) :
    ∃ acknowledged received,
      Transfers acknowledged received (p.run uppers moves side)
        (p.run uppers moves side.other) :=
  Agreed.transfers (Agreed.run uppers ⟨_, _, consistent_start started⟩ plain) side

/-- A frame is lost and sent again when its time has come. Noise comes before it, and it arrives in
two pieces. -/
theorem transfers_lost :
    let p : Pair Sink Unit Unit := fresh (fun _ => {}) (fun _ => {}) fun _ => ()
    let moves := [.send .a 7 [1, 2, 3], .lose .a 0, .tune .a { now := 100 }, .process .a,
      .disturb .a 0 [0, 0xAA], .deliver .a 9, .deliver .a 8, .deliver .b 16]
    start (fun _ => {}) (fun _ => {}) (fun _ => ()) = .ok p ∧
      (tally (p.run (fun _ => idleUpper) moves .b).journal).deliveries = [(7, [1, 2, 3])] ∧
      (p.run (fun _ => idleUpper) moves .a).link.status.tx.dataFrames = 1 ∧
      ∃ acknowledged received,
        Transfers acknowledged received (p.run (fun _ => idleUpper) moves .a)
          (p.run (fun _ => idleUpper) moves (Side.a).other) := by
  intro p moves
  have started : start (fun _ => {}) (fun _ => {}) (fun _ => ()) = .ok p :=
    start_eq_ok_iff.mpr ⟨fun _ => Config.valid_default, rfl⟩
  refine ⟨started, by decide +kernel, by decide +kernel, ?_⟩
  exact transfers_run started (fun _ => idleUpper) (by decide) .a

end Pair

end FramedLink
