import FramedLink.Proofs.Pair
import FramedLink.Proofs.Receiving

/-! # Layers above that send nothing

What a layer above does that sends nothing is written into the journal and changes nothing else.
-/

namespace FramedLink

open FramedLink.Frame

variable {δ υ ω α : Type}

/-- Nothing is sent, whatever the answers are. -/
def Script.Silent : Script ω α → Prop
  | .done _ => True
  | .send .. => False
  | .status next => ∀ answer, (next answer).Silent
  | .clock next => ∀ answer, (next answer).Silent
  | .capacity next => ∀ answer, (next answer).Silent
  | .remark _ next => next.Silent

/-- Nothing is sent, whatever the layer above is told. -/
structure Upper.Silent (upper : Upper υ ω) : Prop where
  onEvent : ∀ u event, (upper.onEvent u event).Silent
  onData : ∀ u metadata payload, (upper.onData u metadata payload).Silent

theorem silent_idleUpper : idleUpper.Silent where
  onEvent _ _ := trivial
  onData _ _ _ := trivial

namespace LinkState

variable [Driver δ]

/-- A script that sends nothing leaves its remarks. -/
theorem run_silent {script : Script ω α} (silent : script.Silent) (s : LinkState δ ω) :
    ∃ remarks : List ω, (s.run script).2 =
      { s with journal := remarks.map (fun r => .left (.remarked r)) ++ s.journal } := by
  induction script generalizing s with
  | done => exact ⟨[], rfl⟩
  | send => cases silent
  | status next ih => exact ih _ (silent _) s
  | clock next ih => exact ih _ (silent _) s
  | capacity next ih => exact ih _ (silent _) s
  | remark r next ih =>
    obtain ⟨remarks, same⟩ := ih silent (s.log (.remarked r))
    refine ⟨remarks ++ [r], ?_⟩
    rw [List.map_append, List.append_assoc]
    exact same

theorem Satisfies.runSilent {W : Property ω} {old : List Item} {arrived : Nat}
    {s : LinkState (Line δ) ω} (calm : Calm W) (h : s.Satisfies old arrived W)
    {script : Script ω α} (silent : script.Silent) :
    (s.run script).2.Satisfies old arrived W := by
  obtain ⟨remarks, same⟩ := run_silent silent s
  rw [same]
  clear same
  induction remarks with
  | nil => exact h
  | cons r earlier ih =>
    obtain ⟨books, items, waiting, carries, holds⟩ := ih
    exact ⟨books.idle trivial, items, waiting, carries, calm holds trivial⟩

end LinkState

theorem Upper.Silent.keeps {upper : Upper υ ω} (silent : upper.Silent) (δ : Type) [Driver δ]
    {W : Property ω} (calm : Calm W) (old : List Item) (arrived : Nat) :
    upper.Keeps δ old arrived W where
  onEvent u event _ h := h.runSilent calm (silent.onEvent u event)
  onData u metadata payload _ h := h.runSilent calm (silent.onData u metadata payload)

end FramedLink
