import FramedLink.Link.Upper

/-! # Time

A frame that stays without acknowledgement for too long is handed to the driver again, together
with all that were sent after it. When the oldest frame has been sent too often in vain, the link
counts as disconnected; it goes on trying.
-/

namespace FramedLink.LinkState

variable {δ ω υ : Type} [Driver δ]

/-- Sends again if the oldest frame that was sent is due. -/
def checkTimeout (upper : Upper υ ω) (u : υ) (s : LinkState δ ω) : υ × LinkState δ ω :=
  match s.window.oldestSent? with
  | none => (u, s)
  | some oldest =>
    if s.clock - oldest.sentAt < s.config.timeout then (u, s)
    else
      let (u, s) :=
        if s.config.retries ≤ oldest.attempts ∧ s.disconnected = false then
          { s with disconnected := true }.raise upper u .disconnected
        else (u, s)
      (u, { s with window := s.window.rewind }.flush)

/-- The driver has space for what is to be handed over next. -/
def hasWork (s : LinkState δ ω) : Bool :=
  (!s.control.waiting.isEmpty && Frame.controlSize ≤ s.space) ||
    s.window.firstPending?.any (·.image.length ≤ s.space)

/-- The milliseconds until there is something to do. -/
def serviceInterval (s : LinkState δ ω) : Nat :=
  if s.hasWork then 0
  else
    match s.window.oldestSent? with
    | some oldest => s.config.timeout - (s.clock - oldest.sentAt)
    | none => s.config.timeout

end FramedLink.LinkState
