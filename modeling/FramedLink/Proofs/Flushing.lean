import FramedLink.Simulation.Wire
import FramedLink.Proofs.Satisfying

/-! # Drivers with space

A driver that has space for every frame leaves none to wait: a flush hands over all that the link
holds back.
-/

namespace FramedLink

open FramedLink.Frame

variable {δ υ ω : Type}

/-- However much the driver is handed, it has space for a frame and shows no time before `due`. -/
def Driver.Ready [Driver δ] (due : Nat) (d : δ) : Prop :=
  ∀ handed : List Bytes,
    maxSize ≤ Driver.space (handed.foldl Driver.send d) ∧
      due ≤ Driver.clock (handed.foldl Driver.send d)

namespace Driver.Ready

variable [Driver δ] {due : Nat} {d : δ} (h : Ready due d)
include h

theorem send (bytes : Bytes) : Ready due (Driver.send d bytes) := fun handed => h (bytes :: handed)

theorem space : maxSize ≤ Driver.space d := (h []).1

theorem clock : due ≤ Driver.clock d := (h []).2

end Driver.Ready

theorem ready_wire {due now : Nat} (later : due ≤ now) (outbox : List Bytes) :
    Driver.Ready due ({ now, outbox } : Simulation.Wire) := by
  intro handed
  induction handed generalizing outbox with
  | nil => exact ⟨show maxSize ≤ Driver.unlimited by decide, later⟩
  | cons bytes rest ih => exact ih (bytes :: outbox)

private theorem Line.driver_foldl [Driver δ] (handed : List Bytes) (l : Line δ) :
    (handed.foldl Driver.send l).driver = handed.foldl Driver.send l.driver := by
  induction handed generalizing l with
  | nil => rfl
  | cons bytes rest ih => exact ih _

theorem ready_line [Driver δ] {due : Nat} {l : Line δ} :
    Driver.Ready due l ↔ Driver.Ready due l.driver := by
  refine forall_congr' fun handed => ?_
  change maxSize ≤ Driver.space (handed.foldl Driver.send l).driver ∧
    due ≤ Driver.clock (handed.foldl Driver.send l).driver ↔ _
  rw [l.driver_foldl handed]

namespace LinkState

section Space

variable [Driver δ] {due : Nat} {s : LinkState δ ω}

theorem handControls_ready (ready : Driver.Ready due s.driver) (queue : List ControlFrame) :
    (handControls queue s).1 = [] ∧ Driver.Ready due (handControls queue s).2.driver := by
  induction queue generalizing s with
  | nil => exact ⟨rfl, ready⟩
  | cons f rest ih =>
    have space := ready.space
    have fits : ¬ s.space < controlSize := by
      have smaller : controlSize ≤ maxSize := by decide
      exact Nat.not_lt_of_le (Nat.le_trans smaller space)
    rw [handControls, if_neg fits]
    exact ih (s := { s.hand f.image with
      status.tx.controlFrames := s.status.tx.controlFrames + 1 }) (ready.send f.image)

private theorem ready_handPending (ready : Driver.Ready due s.driver) (now : Nat)
    (frames : List Outgoing) : Driver.Ready due (handPending now frames s).2.driver := by
  induction frames generalizing s with
  | nil => exact ready
  | cons f rest ih =>
    rw [handPending]
    split
    · exact ih ready
    · split
      · exact ready
      · exact ih (ready.send f.image)

theorem flush_ready (ready : Driver.Ready due s.driver) :
    s.flush.control.waiting = [] ∧ Driver.Ready due s.flush.driver := by
  obtain ⟨none, ready'⟩ := handControls_ready ready s.control.waiting
  unfold flush
  split
  · next left =>
    rw [left] at none
    cases none
  · next left =>
    rw [left] at ready'
    exact ⟨rfl, ready_handPending ready' _ _⟩

/-! ## A driver stays ready -/

theorem ready_send (ready : Driver.Ready due s.driver) (metadata : Nat) (payload : Bytes) :
    Driver.Ready due (s.send metadata payload).2.driver := by
  unfold send
  split
  · exact ready
  · split
    · exact ready
    · split
      · exact ready
      · split
        · exact ready
        · simp only
          split
          · exact ready
          · refine (flush_ready ?_).2
            exact ready

theorem ready_run (ready : Driver.Ready due s.driver) {α : Type} (script : Script ω α) :
    Driver.Ready due (s.run script).2.driver := by
  induction script generalizing s with
  | done => exact ready
  | send metadata payload next ih => exact ih _ (ready_send ready metadata payload)
  | status next ih => exact ih _ ready
  | clock next ih => exact ih _ ready
  | capacity next ih => exact ih _ ready
  | remark r next ih => exact ih (s := s.log (.remarked r)) ready

section Taking

variable {upper : Upper υ ω} {u : υ} (ready : Driver.Ready due s.driver)
include ready

theorem ready_raise (event : Event) : Driver.Ready due (s.raise upper u event).2.driver :=
  ready_run (s := s.log (.raised event)) ready _

private theorem ready_deliver (metadata : Nat) (payload : Bytes) :
    Driver.Ready due (s.deliver upper u metadata payload).2.driver :=
  ready_run (s := s.log (.delivered metadata payload)) ready _

private theorem ready_takeData (f : DataFrame) :
    Driver.Ready due (s.takeData upper u f).2.driver := by
  unfold takeData
  split
  · apply ready_deliver (δ := δ)
    exact ready
  · exact ready
  · simp only
    split <;> exact ready
  · exact ready

theorem ready_acknowledge (released : Nat) :
    Driver.Ready due (s.acknowledge upper u released).2.driver := by
  unfold acknowledge
  split
  · exact ready
  · simp only
    split
    · apply ready_raise
      exact ready
    · exact ready

private theorem ready_goBack (id : Nat) : Driver.Ready due (s.goBack upper u id).2.driver := by
  unfold goBack
  split
  · exact ready
  · apply ready_acknowledge
    exact ready

private theorem ready_takeControl (f : ControlFrame) :
    Driver.Ready due (s.takeControl upper u f).2.driver := by
  obtain ⟨control, id⟩ := f
  have released (window : SendWindow) (count : Nat) :
      Driver.Ready due ({ s with window }.acknowledge upper u count).2.driver := by
    apply ready_acknowledge
    exact ready
  cases control with
  | ackAll | ackOne => exact released _ _
  | nackId | nackFraming => exact ready_goBack ready _
  | reset =>
    simp only [takeControl]
    split
    · refine ready_raise (ready_raise ?_ _) _
      exact ready
    · apply ready_raise
      exact ready

private theorem ready_takeNotices (notices : List Framing.Notice) :
    Driver.Ready due (notices.foldl (takeNotice upper) (u, s)).2.driver := by
  induction notices generalizing u s with
  | nil => exact ready
  | cons notice rest ih =>
    rw [List.foldl_cons, ← Prod.eta (takeNotice upper (u, s) notice)]
    apply ih
    unfold takeNotice
    simp only
    split
    · apply ready_takeData
      exact ready
    · apply ready_takeControl
      exact ready
    · exact ready

private theorem ready_checkTimeout : Driver.Ready due (s.checkTimeout upper u).2.driver := by
  unfold checkTimeout
  split
  · exact ready
  · split
    · exact ready
    · simp only
      refine (flush_ready ?_).2
      change Driver.Ready due (ite _ _ _ : υ × LinkState δ ω).2.driver
      split
      · apply ready_raise
        exact ready
      · exact ready

end Taking

/-! ## What a flush leaves alone -/

theorem config_flush (s : LinkState δ ω) : s.flush.config = s.config := by
  have controls := congrArg LinkState.config (handControls_frame s.control.waiting s)
  unfold flush
  split
  · next left =>
    rw [left] at controls
    exact controls
  · next s' left =>
    rw [left] at controls
    exact (congrArg LinkState.config (handPending_frame s'.clock s'.window.frames s')).trans
      controls

theorem oldestSent?_flush {oldest : Outgoing} (sent : s.window.oldestSent? = some oldest) :
    s.flush.window.oldestSent? = some oldest := by
  have controls := congrArg LinkState.window (handControls_frame s.control.waiting s)
  unfold flush
  split
  · next left =>
    rw [left] at controls
    rw [← sent]
    exact congrArg SendWindow.oldestSent? controls
  · next s' left =>
    rw [left] at controls
    simp only at controls ⊢
    rw [controls]
    simp only [SendWindow.oldestSent?] at sent ⊢
    cases frames : s.window.frames with
    | nil =>
      rw [frames] at sent
      cases sent
    | cons f rest =>
      rw [frames, List.head?_cons, Option.filter_eq_some_iff] at sent
      obtain ⟨same, phase⟩ := sent
      cases same
      rw [handPending, if_pos (by simpa using phase)]
      exact Option.filter_eq_some_iff.mpr ⟨rfl, phase⟩

end Space

/-! ## All that waits is handed over -/

variable [Driver δ] {due : Nat} {old : List Item} {arrived : Nat} {s : LinkState (Line δ) ω}
  {W : List Packet → Property ω} (calm : ∀ {left}, Calm (W left))
  (hand : ∀ {packet left journal way}, W (packet :: left) journal way →
    W left journal (way ++ [packet]))
include calm hand

private theorem satisfies_handAll (now : Nat) {frames : List Outgoing} {held : List Packet}
    (stores : List.Forall₂ Stores frames held) (pending : ∀ f ∈ frames, f.phase = .pending)
    (ready : Driver.Ready due s.driver)
    (h : { s with control.waiting := [] }.Satisfies old arrived (W held)) :
    { (handPending now frames s).2 with control.waiting := [] }.Satisfies old arrived (W []) := by
  induction stores generalizing s with
  | nil => exact h
  | @cons f packet rest others here later ih =>
    have waits : f.phase ≠ .sent := by
      rw [pending f List.mem_cons_self]
      exact nofun
    have fits : ¬ s.space < f.image.length := by
      rw [here.image]
      exact Nat.not_lt_of_le (Nat.le_trans (Frame.length_image_le here.valid) ready.space)
    rw [handPending, if_neg waits, if_neg fits]
    exact ih (s := s.handOutgoing f) (fun g among => pending g (List.mem_cons_of_mem _ among))
      (ready.send f.image) (h.handOutgoing calm here hand)

/-- A flush hands over all outstanding frames if all wait, in their order. -/
theorem Satisfies.flush_all (pending : ∀ f ∈ s.window.frames, f.phase = .pending)
    (ready : Driver.Ready due s.driver)
    (h : s.Satisfies old arrived fun journal way => W (Journal.outstanding journal) journal way) :
    s.flush.Satisfies old arrived (W []) := by
  obtain ⟨none, ready'⟩ := handControls_ready ready s.control.waiting
  have calm' : Calm fun journal way => W (Journal.outstanding journal) journal way := by
    intro journal way entry holds idle
    simp only [Journal.outstanding_idle idle]
    exact calm holds idle
  have controls := satisfies_handControls calm' s.control.waiting h
  have same := congrArg LinkState.window (handControls_frame s.control.waiting s)
  unfold LinkState.flush
  split
  · next left =>
    rw [left] at none
    cases none
  · next s' left =>
    rw [left] at controls ready' same
    have window : s'.window.Holds (Journal.outstanding s'.journal) := controls.1.window
    have pending' : ∀ f ∈ s'.window.frames, f.phase = .pending := by
      simp only at same
      rw [same]
      exact pending
    have all : { (handPending s'.clock s'.window.frames s').2 with
        control.waiting := [] }.Satisfies old arrived (W []) :=
      satisfies_handAll calm hand s'.clock window.stores pending' ready' (controls.imp id)
    exact all.marked window.sentFirst

end LinkState

/-! ## Links with space -/

namespace Link

variable [Driver δ] {due : Nat} {l : Link δ ω}

section Ready

variable (ready : Driver.Ready due l.state.driver)
include ready

theorem receive_ready (upper : Upper υ ω) (u : υ) (chunk : Bytes) :
    (l.receive upper u chunk).2.state.control.waiting = [] ∧
      Driver.Ready due (l.receive upper u chunk).2.state.driver := by
  apply LinkState.flush_ready
  exact LinkState.ready_takeNotices ready _

theorem ready_process (upper : Upper υ ω) (u : υ) :
    Driver.Ready due (l.process upper u).2.state.driver :=
  LinkState.ready_checkTimeout (LinkState.flush_ready ready).2

end Ready

end Link

end FramedLink
