import FramedLink.Link.Input
import FramedLink.Link.Timer

/-! # Links

A link carries data frames over a driver reliably: in order, none twice, and again until they are
acknowledged. It never waits. Bytes that were received are given to `receive`, time passes with
`process`, and output goes to the driver as soon as there is space for it.
-/

namespace FramedLink

/-- A link over a driver with state `δ`, with remarks `ω` from the layer above. -/
structure Link (δ ω : Type) where
  framer : Framing.Framer
  state : LinkState δ ω

namespace Link

variable {δ ω υ α : Type} [Driver δ]

def ofConfig (config : Config) (driver : δ) : Except Fault (Link δ ω) := do
  config.validate
  return ⟨.ofCapacity config.receiveStorage, .ofConfig config driver⟩

/-! ## Looking at it -/

def status (l : Link δ ω) : LinkStatus := l.state.status

/-- The data frames that are not acknowledged. -/
def inFlight (l : Link δ ω) : Nat := l.state.window.length

def sendCapacity (l : Link δ ω) : Nat := l.state.sendCapacity

def serviceInterval (l : Link δ ω) : Nat := l.state.serviceInterval

/-- What has happened since the journal was taken last, newest first, and the link without it. -/
def takeJournal (l : Link δ ω) : List (Entry ω) × Link δ ω :=
  (l.state.journal, { l with state.journal := [] })

/-- What has left the link since the journal was taken last, oldest first, and the link without
it. -/
def takeTrace (l : Link δ ω) : List (Action ω) × Link δ ω :=
  let (journal, l) := l.takeJournal
  (journal.reverse.filterMap Entry.action?, l)

/-! ## Working with it -/

def run (l : Link δ ω) (script : Script ω α) : α × Link δ ω :=
  let (value, state) := l.state.run script
  (value, { l with state })

def send (l : Link δ ω) (metadata : Nat) (payload : Bytes) : Except Fault Unit × Link δ ω :=
  let (result, state) := l.state.send metadata payload
  (result, { l with state })

def receive (upper : Upper υ ω) (u : υ) (l : Link δ ω) (chunk : Bytes) : υ × Link δ ω :=
  let (framer, notices) := l.framer.receive chunk
  let (u, state) := notices.foldl (LinkState.takeNotice upper) (u, l.state)
  (u, ⟨framer, { state with status := state.status.withCounters framer.counters }.flush⟩)

/-- Hands over what the driver has space for, and sends again what is due. -/
def process (upper : Upper υ ω) (u : υ) (l : Link δ ω) : υ × Link δ ω :=
  let (u, state) := l.state.flush.checkTimeout upper u
  (u, { l with state })

/-- Begins anew, and asks the peer to do so. -/
def reset (l : Link δ ω) : Link δ ω where
  framer := l.framer.reset.clearCounters
  state :=
    let cleared := { l.state.clear with status := {}, disconnected := false }
    ((cleared.note .restarted).queue .reset LinkState.resetRequest).flush

end Link

end FramedLink
