import FramedLink.Port.Message
import FramedLink.Port.Reassembly
import FramedLink.Link.State

/-! # Handlers

A handler is what stands behind a port. It is told of the events of the link and is given the
segments that arrive for its port. It can look up the text that each port has been described with.
-/

namespace FramedLink.Port

/-- The description of each port that has one. -/
abbrev Directory := Nat → Option String

/-- The state `η` of a handler that makes remarks `ω`. -/
class Handler (η : Type) (ω : outParam Type) where
  /-- The link has something to tell; most handlers have nothing to do then. -/
  onEvent : Directory → η → Event → Script ω η := fun _ handler _ => .done handler
  onSegment : Directory → η → Address → Bytes → Script ω η

instance {η κ ω : Type} [Handler η ω] [Handler κ ω] : Handler (η ⊕ κ) ω where
  onEvent directory handler event :=
    match handler with
    | .inl handler => (Handler.onEvent directory handler event).bind fun h => .done (.inl h)
    | .inr handler => (Handler.onEvent directory handler event).bind fun h => .done (.inr h)
  onSegment directory handler address payload :=
    match handler with
    | .inl handler =>
      (Handler.onSegment directory handler address payload).bind fun h => .done (.inl h)
    | .inr handler =>
      (Handler.onSegment directory handler address payload).bind fun h => .done (.inr h)

/-! ## Messages -/

/-- The state `κ` of what takes messages that are complete. -/
class Consumer (κ : Type) (ω : outParam Type) where
  /-- A message has arrived, with the port data of its first segment. -/
  onMessage : Directory → κ → (port data : Nat) → Bytes → Script ω κ

structure MessagePort (κ : Type) where
  reassembly : Reassembly
  /-- The port data of the segment that last began a message. -/
  data : Nat := 0
  consumer : κ
  deriving DecidableEq, Repr, Inhabited

namespace MessagePort

variable {κ ω : Type} [Consumer κ ω]

/-- A handler for messages of at most `limit` bytes. -/
def ofLimit {κ : Type} (limit : Nat) (consumer : κ) : MessagePort κ :=
  { reassembly := { limit }, consumer }

/-- Takes a segment; one that is out of place or too long is dropped. -/
def take (directory : Directory) (m : MessagePort κ) (address : Address) (payload : Bytes) :
    Script ω (MessagePort κ) :=
  let data := if address.segment.isStart then address.data else m.data
  match m.reassembly.push address.segment payload with
  | (.ok (some message), reassembly) =>
    (Consumer.onMessage directory m.consumer address.port data message).bind fun consumer =>
      .done { reassembly, data, consumer }
  | (_, reassembly) => .done { m with reassembly, data }

instance : Handler (MessagePort κ) ω where
  onEvent _ m event :=
    .done (if event = .reset then { m with reassembly := m.reassembly.clear } else m)
  onSegment := take

end MessagePort

end FramedLink.Port
