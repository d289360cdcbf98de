import FramedLink.Proofs.Dating

/-! # Frames that are overdue

When the oldest frame was sent too long ago, the layer above is warned if it was sent too often, and
then the whole window is sent again. Whatever the layer above does meanwhile, a frame that was sent
stays as it is until then.
-/

namespace FramedLink

open FramedLink.Journal

variable {δ ω υ : Type} [Driver δ]

namespace LinkState

/-- The oldest frame was sent, and that was too long ago. -/
def Overdue (s : LinkState δ ω) : Prop :=
  ∃ oldest, s.window.oldestSent? = some oldest ∧ s.config.timeout ≤ s.clock - oldest.sentAt

/-- The layer above and the link after a warning that the oldest frame was sent too often, if it
was. -/
def warn (upper : Upper υ ω) (u : υ) (s : LinkState δ ω) : υ × LinkState δ ω :=
  if s.window.oldestSent?.any (s.config.retries ≤ ·.attempts) ∧ s.disconnected = false then
    { s with disconnected := true }.raise upper u .disconnected
  else (u, s)

/-- Hands over all frames of the window again, as far as the driver has space. -/
def resend (s : LinkState δ ω) : LinkState δ ω := { s with window := s.window.rewind }.flush

section CheckTimeout

variable (upper : Upper υ ω) (u : υ) {s : LinkState δ ω}

theorem checkTimeout_of_overdue (overdue : s.Overdue) :
    s.checkTimeout upper u = ((s.warn upper u).1, (s.warn upper u).2.resend) := by
  obtain ⟨oldest, sent, due⟩ := overdue
  unfold checkTimeout warn
  simp only [sent, Option.any_some, decide_eq_true_eq]
  rw [if_neg (Nat.not_lt_of_le due)]
  rfl

theorem checkTimeout_of_not_overdue (timely : ¬ s.Overdue) : s.checkTimeout upper u = (u, s) := by
  unfold checkTimeout
  split
  · rfl
  · next oldest sent =>
    apply if_pos
    apply Nat.lt_of_not_le
    exact fun due => timely ⟨oldest, sent, due⟩

end CheckTimeout

/-! ## What was sent -/

private theorem Emission.mem_of_sent {s s' : LinkState δ ω} (emission : Emission s s')
    {f : Outgoing} (among : f ∈ s.window.frames) (sent : f.phase = .sent) :
    f ∈ s'.window.frames := by
  cases emission with
  | handControl => exact among
  | @handData _ _ g _ _ frames _ pending =>
    have other : f ≠ g := by
      rintro rfl
      rw [sent] at pending
      cases pending
    rw [frames] at among
    rcases List.mem_append.mp among with front | back
    · exact List.mem_append_left _ front
    · have later := (List.mem_cons.mp back).resolve_left other
      exact List.mem_append_right _ (List.mem_cons_of_mem _ later)
  | accept _ _ _ _ pushed =>
    obtain ⟨_, _, rfl⟩ := SendWindow.push_eq_some_iff.mp pushed
    exact List.mem_append_left _ among
  | remark => exact among

theorem Emits.mem_of_sent {s s' : LinkState δ ω} (emits : Emits s s') {f : Outgoing}
    (among : f ∈ s.window.frames) (sent : f.phase = .sent) : f ∈ s'.window.frames :=
  emits.keep (P := fun s => f ∈ s.window.frames)
    (fun emission among => emission.mem_of_sent among sent) among

theorem mem_warn_of_sent (upper : Upper υ ω) (u : υ) {s : LinkState δ ω} {f : Outgoing}
    (among : f ∈ s.window.frames) (sent : f.phase = .sent) :
    f ∈ (s.warn upper u).2.window.frames := by
  unfold warn
  split
  · exact Emits.mem_of_sent (emits_run _ _) among sent
  · exact among

/-! ## What was handed over -/

private theorem Emission.handed_prefix {s s' : LinkState δ ω} (emission : Emission s s') :
    handed s.journal <+: handed s'.journal := by
  cases emission with
  | handControl => exact List.prefix_append _ _
  | handData => exact List.prefix_append _ _
  | accept => exact List.prefix_rfl
  | remark => exact List.prefix_rfl

theorem handed_checkTimeout (upper : Upper υ ω) (u : υ) (s : LinkState δ ω) :
    handed s.journal <+: handed (s.checkTimeout upper u).2.journal :=
  keep_checkTimeout (P := fun t => handed s.journal <+: handed t.journal)
    (fun emission before => before.trans emission.handed_prefix)
    (fun call before => by cases call <;> exact before)
    (fun before => before) (fun before => before) upper u List.prefix_rfl

end LinkState

end FramedLink
