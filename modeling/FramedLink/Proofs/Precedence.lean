import Mathlib.Data.List.Infix
import FramedLink.Proofs.Meeting
import FramedLink.Proofs.Outstanding
import FramedLink.Simulation.Application
import FramedLink.Simulation.Wire

/-! # The order of the window

A timeout looks at the oldest frame only, and whether a frame waits is told from the newest one.
That is enough: the frames that were handed over come before those that wait, none was tried more
often than one before it, and none that is handed over has been so for longer: `orderly_meets`.
-/

namespace FramedLink

/-! ## Windows in order -/

theorem Phase.eq_pending_iff {phase : Phase} : phase = .pending ↔ phase ≠ .sent := by
  cases phase <;> simp

namespace Outgoing

/-- What a frame remembers of having been handed over, at this time or before. -/
structure Regular (time : Nat) (f : Outgoing) : Prop where
  most : f.attempts ≤ maxAttempts
  tried : f.phase = .sent → 0 < f.attempts
  sentAt : f.phase = .sent → f.sentAt ≤ time

/-- `f` may come before `g` in a window. A frame that is handed over has been tried once more than
those that still wait behind it, as long as attempts are counted. -/
structure Before (f g : Outgoing) : Prop where
  sent : g.phase = .sent → f.phase = .sent
  attempts : g.attempts ≤ f.attempts
  ahead : f.phase = .sent → g.phase = .pending → min (g.attempts + 1) maxAttempts ≤ f.attempts
  sentAt : f.phase = .sent → g.phase = .sent → f.sentAt ≤ g.sentAt

private theorem regular_markSent (f : Outgoing) (time : Nat) : (f.markSent time).Regular time where
  most := Nat.min_le_right _ _
  tried _ := Nat.lt_min.mpr ⟨Nat.succ_pos _, by decide⟩
  sentAt _ := Nat.le_refl _

namespace Before

variable {f g : Outgoing}

private theorem mark_earlier (h : f.Before g) (pending : f.phase = .pending)
    (most : f.attempts ≤ maxAttempts) (time : Nat) : (f.markSent time).Before g := by
  have waits : g.phase ≠ .sent := by
    intro sent
    rw [h.sent sent] at pending
    cases pending
  have fewer := h.attempts
  refine ⟨fun _ => rfl, ?_, fun _ _ => ?_, fun _ sent => absurd sent waits⟩
  · show g.attempts ≤ min (f.attempts + 1) maxAttempts
    omega
  · show min (g.attempts + 1) maxAttempts ≤ min (f.attempts + 1) maxAttempts
    omega

private theorem mark_later {time : Nat} (h : f.Before g) (sent : f.phase = .sent)
    (pending : g.phase = .pending) (regular : f.Regular time) : f.Before (g.markSent time) where
  sent _ := sent
  attempts := h.ahead sent pending
  ahead := nofun
  sentAt sent _ := regular.sentAt sent

end Before

end Outgoing

namespace SendWindow

/-- The frames of a window at this time, oldest first. -/
structure Queued (time : Nat) (frames : List Outgoing) : Prop where
  regular : ∀ f ∈ frames, f.Regular time
  inOrder : frames.Pairwise Outgoing.Before

namespace Queued

variable {time later : Nat} {frames : List Outgoing}

theorem nil (time : Nat) : Queued time [] := ⟨nofun, .nil⟩

theorem mono (h : Queued time frames) (passed : time ≤ later) : Queued later frames where
  regular f among :=
    ⟨(h.regular f among).most, (h.regular f among).tried,
      fun sent => Nat.le_trans ((h.regular f among).sentAt sent) passed⟩
  inOrder := h.inOrder

theorem sublist (h : Queued time frames) {kept : List Outgoing} (fewer : kept.Sublist frames) :
    Queued time kept where
  regular f among := h.regular f (fewer.subset among)
  inOrder := h.inOrder.sublist fewer

theorem rewind (h : Queued time frames) : Queued time (frames.map (·.rewind)) where
  regular := by
    intro f among
    obtain ⟨g, inside, rfl⟩ := List.mem_map.mp among
    exact ⟨(h.regular g inside).most, nofun, nofun⟩
  inOrder := by
    apply List.pairwise_map.mpr
    apply h.inOrder.imp
    intro f g before
    exact ⟨nofun, before.attempts, nofun, nofun⟩

theorem push {w : SendWindow} (h : Queued time w.frames) (id : Nat) (image : Bytes) :
    Queued time (w.frames ++ [w.entering id image]) where
  regular := List.forall_mem_append.mpr
    ⟨h.regular, List.forall_mem_singleton.mpr ⟨Nat.zero_le _, nofun, nofun⟩⟩
  inOrder := by
    refine List.pairwise_append.mpr ⟨h.inOrder, List.pairwise_singleton _ _, ?_⟩
    intro f among g last
    obtain rfl := List.mem_singleton.mp last
    refine ⟨nofun, Nat.zero_le _, fun sent _ => ?_, nofun⟩
    exact Nat.le_trans (Nat.min_le_left _ _) ((h.regular f among).tried sent)

theorem mark {sent rest : List Outgoing} {f : Outgoing} (h : Queued time (sent ++ f :: rest))
    (before : ∀ g ∈ sent, g.phase = .sent) (pending : f.phase = .pending) :
    Queued time (sent ++ f.markSent time :: rest) := by
  obtain ⟨inFront, behind, across⟩ := List.pairwise_append.mp h.inOrder
  obtain ⟨first, others⟩ := List.pairwise_cons.mp behind
  obtain ⟨earlier, regular⟩ := List.forall_mem_append.mp h.regular
  obtain ⟨itself, later⟩ := List.forall_mem_cons.mp regular
  constructor
  · exact List.forall_mem_append.mpr
      ⟨earlier, List.forall_mem_cons.mpr ⟨f.regular_markSent time, later⟩⟩
  · refine List.pairwise_append.mpr ⟨inFront, List.pairwise_cons.mpr ⟨?_, others⟩, ?_⟩
    · intro g among
      exact (first g among).mark_earlier pending itself.most time
    · intro g among
      refine List.forall_mem_cons.mpr ⟨?_, ?_⟩
      · exact (across g among f List.mem_cons_self).mark_later (before g among) pending
          (earlier g among)
      · exact fun other inside => across g among other (List.mem_cons_of_mem _ inside)

theorem answer {w : SendWindow} (h : Queued time w.frames) (f : ControlFrame) :
    Queued time (w.answer f).2.frames := by
  obtain ⟨released, kept, parts, -, same | same⟩ := w.answer_cases f
  · rw [same]
    exact h.sublist parts.inOrder
  · rw [same]
    exact (h.sublist parts.inOrder).rewind

end Queued

/-! ## What is told from the ends -/

/-- The frames that were handed over come before those that wait, those tried more often before
those tried less often, and those handed over earlier before those handed over later; the newest
frame tells whether one waits, and the oldest frame which was handed over first. -/
structure Orderly (w : SendWindow) : Prop where
  sentFirst : ∃ sent waiting, w.frames = sent ++ waiting ∧
    (∀ f ∈ sent, f.phase = .sent) ∧ (∀ f ∈ waiting, f.phase = .pending) ∧
      sent.Pairwise fun f g => f.sentAt ≤ g.sentAt
  attempts : w.frames.Pairwise fun f g => g.attempts ≤ f.attempts
  hasPending : w.hasPending = true ↔ ∃ f ∈ w.frames, f.phase = .pending
  oldestSent : ∀ f, w.oldestSent? = some f → f ∈ w.frames ∧ f.phase = .sent ∧
    ∀ g ∈ w.frames, g.attempts ≤ f.attempts ∧ (g.phase = .sent → f.sentAt ≤ g.sentAt)
  noneSent : w.oldestSent? = none ↔ ¬ ∃ f ∈ w.frames, f.phase = .sent

variable {w : SendWindow} {time : Nat}

theorem Queued.first (h : Queued time w.frames) : SentFirst w.frames :=
  h.inOrder.imp fun before => before.sent

theorem oldestSent?_eq_some_iff {f : Outgoing} :
    w.oldestSent? = some f ↔ w.frames.head? = some f ∧ f.phase = .sent := by
  simp [oldestSent?]

/-- The newest frame waits if any frame does. -/
theorem hasPending_iff (first : SentFirst w.frames) :
    w.hasPending = true ↔ ∃ f ∈ w.frames, f.phase = .pending := by
  unfold hasPending
  rcases List.eq_nil_or_concat' w.frames with none | ⟨front, newest, frames⟩
  · simp [none]
  rw [frames] at first ⊢
  simp only [List.getLast?_concat, Option.any_some, decide_eq_true_eq]
  constructor
  · intro pending
    exact ⟨newest, by simp, pending⟩
  · rintro ⟨f, among, pending⟩
    rw [Phase.eq_pending_iff] at pending ⊢
    intro sent
    rcases List.mem_append.mp among with before | last
    · exact pending ((List.pairwise_append.mp first).2.2 f before newest (by simp) sent)
    · exact pending (List.mem_singleton.mp last ▸ sent)

theorem Queued.orderly (h : Queued time w.frames) : w.Orderly where
  sentFirst := by
    have earlier : w.frames.Pairwise fun f g =>
        decide (g.phase = .sent) → decide (f.phase = .sent) :=
      h.first.imp fun before => by simpa using before
    obtain ⟨sent, waiting⟩ := takeWhile_eq_filter earlier
    have handed : ∀ f ∈ w.frames.takeWhile (·.phase = .sent), f.phase = .sent := by
      rw [sent]
      exact fun f among => of_decide_eq_true (List.mem_filter.mp among).2
    refine ⟨_, _, List.takeWhile_append_dropWhile.symm, handed, ?_, ?_⟩
    · rw [waiting]
      intro f among
      exact Phase.eq_pending_iff.mpr (by simpa using (List.mem_filter.mp among).2)
    · apply (h.inOrder.sublist (List.takeWhile_sublist _)).imp_of_mem
      intro f g first second before
      exact before.sentAt (handed f first) (handed g second)
  attempts := h.inOrder.imp fun before => before.attempts
  hasPending := hasPending_iff h.first
  oldestSent := by
    intro f oldest
    obtain ⟨first, sent⟩ := oldestSent?_eq_some_iff.mp oldest
    obtain ⟨rest, frames⟩ := List.head?_eq_some_iff.mp first
    have inOrder := h.inOrder
    rw [frames] at inOrder ⊢
    refine ⟨List.mem_cons_self, sent, List.forall_mem_cons.mpr ⟨?_, ?_⟩⟩
    · exact ⟨Nat.le_refl _, fun _ => Nat.le_refl _⟩
    · intro g among
      have before := (List.pairwise_cons.mp inOrder).1 g among
      exact ⟨before.attempts, before.sentAt sent⟩
  noneSent := by
    constructor
    · rintro none ⟨f, among, sent⟩
      rw [pending_of_oldestSent?_eq_none h.first none f among] at sent
      cases sent
    · intro none
      apply Option.eq_none_iff_forall_ne_some.mpr
      intro f oldest
      obtain ⟨first, sent⟩ := oldestSent?_eq_some_iff.mp oldest
      exact none ⟨f, List.mem_of_mem_head? first, sent⟩

end SendWindow

/-! ## Links -/

variable {δ ω υ : Type} [Driver δ]

/-- The clock of a driver does not go back when the driver is handed something. -/
def Driver.Advances (δ : Type) [Driver δ] : Prop :=
  ∀ (d : δ) (bytes : Bytes), Driver.clock d ≤ Driver.clock (Driver.send d bytes)

namespace LinkState

/-- The window is in order, and its frames were handed over when the clock said what it says now or
before. -/
def Queued (s : LinkState δ ω) : Prop := SendWindow.Queued s.clock s.window.frames

namespace Queued

variable {s s' : LinkState δ ω}

/-- What is handed over in a flush was in order when the clock was read. -/
theorem flush (advances : Driver.Advances δ) (h : s.Queued) : s.flush.Queued := by
  obtain ⟨now, queued, passed⟩ :
      ∃ now, SendWindow.Queued now s.flush.window.frames ∧ now ≤ s.flush.clock := by
    refine keep_flush (P := Queued)
      (R := fun now s => SendWindow.Queued now s.window.frames ∧ now ≤ s.clock)
      ?_ (fun h => ⟨h, Nat.le_refl _⟩) ?_ h
    · intro s s' handing h
      cases handing with
      | control => exact h.mono (advances _ _)
    · intro now s s' handing h
      cases handing with
      | data _ frames before pending =>
        exact ⟨(frames ▸ h.1).mark before pending, Nat.le_trans h.2 (advances _ _)⟩
  exact queued.mono passed

theorem utterance (advances : Driver.Advances δ) (h : s.Queued) (utterance : Utterance s s') :
    s'.Queued := by
  cases utterance with
  | flush => exact h.flush advances
  | accept _ _ _ _ pushed =>
    obtain ⟨_, _, rfl⟩ := SendWindow.push_eq_some_iff.mp pushed
    exact SendWindow.Queued.push h _ _
  | remark => exact h

theorem reaction {happening : Framing.Happening} {calls : List Call} (h : s.Queued)
    (reaction : Reaction s happening s' calls) : s'.Queued := by
  cases reaction with
  | accept | again | ask | pass | response | lost => exact h
  | keep | release | resume => exact SendWindow.Queued.answer h _
  | request => exact .nil _

/-- The window stays in order whatever happens to the link. -/
theorem enduring (advances : Driver.Advances δ) (upper : Upper υ ω) :
    Enduring upper fun _ _ (s : LinkState δ ω) => s.Queued where
  utterance utterance h := h.utterance advances utterance
  reaction reaction h := h.reaction reaction
  told _ _ h := h
  counted _ h := h
  disconnected _ h := h
  rewind h := SendWindow.Queued.rewind h
  restarted _ := .nil _

end Queued

end LinkState

namespace Link

open FramedLink.Frame Simulation

/-- In a run of these acts, the clock does not go back when the driver changes. -/
def Forward (upper : Upper υ ω) (ul : υ × Link δ ω) (acts : List (Act δ)) : Prop :=
  ∀ earlier driver later, acts = earlier ++ .tune driver :: later →
    (Link.acts upper ul earlier).2.state.clock ≤ Driver.clock driver

/-- If the clock always comes to the same time when the driver changes, it has not gone back if it
never was later in the run. -/
theorem forward_of_inits {upper : Upper υ ω} {ul : υ × Link δ ω} {acts : List (Act δ)} {time : Nat}
    (tuned : ∀ driver, .tune driver ∈ acts → Driver.clock driver = time)
    (early : ∀ part ∈ acts.inits, (Link.acts upper ul part).2.state.clock ≤ time) :
    Forward upper ul acts := by
  intro earlier driver later same
  have among : .tune driver ∈ acts := same ▸ List.mem_append_right earlier List.mem_cons_self
  rw [tuned driver among]
  exact early earlier ((List.mem_inits earlier acts).mpr ⟨_, same.symm⟩)

/-- As long as the clock does not go back, the window is in order in every state in which a link is
met. -/
theorem orderly_meets {config : Config} {driver : δ} {l : Link δ ω}
    (started : ofConfig config driver = .ok l) (advances : Driver.Advances δ) {upper : Upper υ ω}
    {u : υ} {acts : List (Act δ)} (forward : Forward upper (u, l) acts) {s : LinkState δ ω}
    (meets : Meets upper (u, l) acts s) : s.window.Orderly := by
  obtain ⟨-, rfl⟩ := ofConfig_eq_ok_iff.mp started
  obtain ⟨-, -, queued⟩ := (LinkState.Queued.enduring advances upper).meets_of_tuned meets
    (fun earlier driver later same before => before.mono (forward earlier driver later same))
    (.nil _)
  exact queued.orderly

/-- Four frames meet a driver with space for three, later one with space for two, which hands over
the last frame and after a timeout the first again; then the peer acknowledges the second. -/
theorem orderly_starved :
    let driver : Wire := { budget := some 40 }
    let l : Link Wire Remark := ⟨.ofCapacity maxSize, .ofConfig {} driver⟩
    let acts : List (Act Wire) := [.send 1 [1], .send 2 [2], .send 3 [3], .send 4 [4],
      .tune { now := 5000, budget := some 30 }, .process,
      .receive (ControlFrame.image ⟨.ackOne, 1⟩)]
    let s := (Link.acts echoer ((), l) acts).2.state
    ofConfig {} driver = .ok l ∧ Driver.Advances Wire ∧ Forward echoer ((), l) acts ∧
      Meets echoer ((), l) acts s ∧
      s.window.frames.map (fun f => (f.id, f.phase, f.attempts, f.sentAt)) =
        [(0, .sent, 2, 5000), (2, .pending, 1, 0), (3, .pending, 1, 5000)] ∧
      s.window.Orderly := by
  intro driver l acts s
  have started : ofConfig {} driver = .ok l := ofConfig_eq_ok_iff.mpr ⟨Config.valid_default, rfl⟩
  have advances : Driver.Advances Wire := fun _ _ => Nat.le_refl _
  have tuned : ∀ driver, .tune driver ∈ acts → Driver.clock driver = 5000 := by
    intro driver among
    obtain rfl : driver = { now := 5000, budget := some 30 } := by simpa [acts] using among
    rfl
  have forward : Forward echoer ((), l) acts := forward_of_inits tuned (by decide +kernel)
  exact ⟨started, advances, forward, .between acts, by decide +kernel,
    orderly_meets started advances forward (.between acts)⟩

end Link

end FramedLink
