import FramedLink.Proofs.Emission
import FramedLink.Proofs.Journal

/-! # How far a flush goes

A flush ends where nothing is left to be handed over, or where the driver has no space for what
comes next. From there another flush does nothing, and from anywhere else it hands something over.
-/

namespace FramedLink

open FramedLink.Frame FramedLink.Journal

namespace SendWindow

theorem find?_of_sent {f : Outgoing} (sent : f.phase = .sent) (rest : List Outgoing) :
    (f :: rest).find? (·.phase = .pending) = rest.find? (·.phase = .pending) :=
  List.find?_cons_of_neg (by simp [sent])

theorem find?_of_not_sent {f : Outgoing} (pending : f.phase ≠ .sent) (rest : List Outgoing) :
    (f :: rest).find? (·.phase = .pending) = some f := by
  apply List.find?_cons_of_pos
  cases same : f.phase with
  | pending => rfl
  | sent => exact absurd same pending

end SendWindow

namespace LinkState

variable {δ ω : Type} [Driver δ]

/-- Nothing can be handed over now. A control frame waits and the driver has no space for it, or
none waits and the driver has no space for the first pending data frame, if there is one. -/
def Exhausted (s : LinkState δ ω) : Prop :=
  (s.control.waiting ≠ [] ∧ s.space < controlSize) ∨
    (s.control.waiting = [] ∧ ∀ f, s.window.firstPending? = some f → s.space < f.image.length)

/-! ## Where a flush ends -/

theorem handControls_exhausts (queue : List ControlFrame) (s : LinkState δ ω) :
    (handControls queue s).1 = [] ∨ (handControls queue s).2.space < controlSize := by
  induction queue generalizing s with
  | nil => exact .inl rfl
  | cons f rest ih =>
    rw [handControls]
    split
    · next full => exact .inr full
    · exact ih _

theorem handPending_exhausts (now : Nat) (frames : List Outgoing) (s : LinkState δ ω) {f : Outgoing}
    (first : (handPending now frames s).1.find? (·.phase = .pending) = some f) :
    (handPending now frames s).2.space < f.image.length := by
  induction frames generalizing s with
  | nil => cases first
  | cons g rest ih =>
    by_cases sent : g.phase = .sent
    · rw [handPending, if_pos sent] at first ⊢
      exact ih s ((SendWindow.find?_of_sent sent _).symm.trans first)
    rw [handPending, if_neg sent] at first ⊢
    by_cases full : s.space < g.image.length
    · rw [if_pos full] at first ⊢
      rw [SendWindow.find?_of_not_sent sent] at first
      cases first
      exact full
    · rw [if_neg full] at first ⊢
      exact ih _ ((SendWindow.find?_of_sent rfl _).symm.trans first)

theorem exhausted_flush (s : LinkState δ ω) : s.flush.Exhausted := by
  have controls := handControls_exhausts s.control.waiting s
  unfold flush
  split
  · next left =>
    rw [left] at controls
    exact .inl ⟨List.cons_ne_nil _ _, controls.resolve_left (List.cons_ne_nil _ _)⟩
  · next s' _ => exact .inr ⟨rfl, fun f => handPending_exhausts s'.clock s'.window.frames s'⟩

/-! ## Where a flush begins -/

private theorem handPending_of_exhausted (now : Nat) {frames : List Outgoing} {s : LinkState δ ω}
    (full : ∀ f, frames.find? (·.phase = .pending) = some f → s.space < f.image.length) :
    handPending now frames s = (frames, s) := by
  induction frames with
  | nil => rfl
  | cons g rest ih =>
    rw [handPending]
    split
    · next sent =>
      rw [SendWindow.find?_of_sent sent] at full
      rw [ih full]
    · next pending => rw [if_pos (full g (SendWindow.find?_of_not_sent pending rest))]

theorem Exhausted.flush_eq {s : LinkState δ ω} (h : s.Exhausted) : s.flush = s := by
  unfold flush
  rcases h with ⟨waits, full⟩ | ⟨none, full⟩
  · obtain ⟨f, rest, waiting⟩ := List.exists_cons_of_ne_nil waits
    rw [waiting, handControls, if_pos full]
    simp only [← waiting]
  · rw [none, handControls]
    simp only
    rw [handPending_of_exhausted s.clock full]
    simp only [← none]

private theorem Handing.handed_length {now : Option Nat} {s s' : LinkState δ ω}
    (handing : Handing now s s') : (handed s.journal).length < (handed s'.journal).length := by
  have one : ∃ bytes, handed s'.journal = handed s.journal ++ [bytes] := by
    cases handing with
    | control => exact ⟨_, rfl⟩
    | data => exact ⟨_, rfl⟩
  obtain ⟨bytes, same⟩ := one
  rw [same, List.length_append]
  exact Nat.lt_succ_self _

private theorem Hands.eq_or_handed {now : Option Nat} {s s' : LinkState δ ω}
    (hands : Hands now s s') : s' = s ∨ (handed s.journal).length < (handed s'.journal).length := by
  induction hands with
  | refl => exact .inl rfl
  | tail _ last ih =>
    rcases ih with rfl | more
    · exact .inr last.handed_length
    · exact .inr (Nat.lt_trans more last.handed_length)

theorem handed_flush_of_not_exhausted {s : LinkState δ ω} (h : ¬ s.Exhausted) :
    (handed s.journal).length < (handed s.flush.journal).length := by
  obtain ⟨m, controls, data⟩ := hands_flush s
  rcases controls.eq_or_handed with rfl | first
  · apply data.eq_or_handed.resolve_left
    intro same
    exact h (same ▸ exhausted_flush m)
  · rcases data.eq_or_handed with same | second
    · rw [same]
      exact first
    · exact Nat.lt_trans first second

end LinkState

end FramedLink
