import FramedLink.Link.Config
import FramedLink.Link.ControlQueue
import FramedLink.Link.Driver
import FramedLink.Link.Receiver
import FramedLink.Link.SendWindow
import FramedLink.Link.Status

/-! # The state of a link

Everything a link knows apart from its framer. What leaves the link, downwards to the driver and
upwards to the layer above, is written into the journal in the order in which it happens, together
with what becomes of the frames it accepts.
-/

namespace FramedLink

/-- What the layer above is told about a link. -/
inductive Event where
  | reset
  /-- The peer answers: it has begun anew as well, or acknowledges frames again. -/
  | connected
  /-- The oldest frame was sent too often in vain. -/
  | disconnected
  deriving DecidableEq, Repr

namespace Event

def name : Event → String
  | reset => "Reset"
  | connected => "Connected"
  | disconnected => "Disconnected"

end Event

/-- What leaves a link. The layer above may add remarks of its own, of type `ω`. -/
inductive Action (ω : Type) where
  | handed (bytes : Bytes)
  /-- A data frame was delivered to the layer above. -/
  | delivered (metadata : Nat) (payload : Bytes)
  | raised (event : Event)
  | remarked (remark : ω)
  deriving DecidableEq, Repr

/-- What is written into the journal of a link. -/
inductive Entry (ω : Type) where
  | left (action : Action ω)
  /-- A data frame of the layer above was accepted for sending. -/
  | accepted (metadata : Nat) (payload : Bytes)
  /-- The data frame that was accepted at this place of the epoch is handed over next. -/
  | going (place : Nat)
  /-- So many frames of the send window were released by an answer of the peer. -/
  | released (count : Nat)
  /-- The frames of both directions were forgotten; ids count from the start again. -/
  | cleared
  /-- The counters began anew. -/
  | restarted
  deriving DecidableEq, Repr

namespace Entry

variable {ω : Type}

/-- What left the link, if anything did. -/
def action? : Entry ω → Option (Action ω)
  | left action => some action
  | _ => none

end Entry

/-- The state of a link over a driver with state `δ`. -/
structure LinkState (δ ω : Type) where
  config : Config
  driver : δ
  window : SendWindow
  receiver : Receiver
  /-- The id of the next data frame to be accepted. -/
  nextId : Nat := 0
  control : ControlQueue
  status : LinkStatus := {}
  disconnected : Bool := false
  /-- What has happened at the link, newest first. -/
  journal : List (Entry ω) := []

namespace LinkState

variable {δ ω : Type}

def ofConfig (config : Config) (driver : δ) : LinkState δ ω where
  config
  driver
  window := .empty config.sendWindow (.ofSize Frame.maxSize config.sendBlocks)
  receiver := { window := config.receiveWindow }
  control := { capacity := config.controlFrames }

def note (s : LinkState δ ω) (entry : Entry ω) : LinkState δ ω :=
  { s with journal := entry :: s.journal }

def log (s : LinkState δ ω) (action : Action ω) : LinkState δ ω := s.note (.left action)

/-- The data frames that can be accepted now. -/
def sendCapacity (s : LinkState δ ω) : Nat := s.window.room

def queue (s : LinkState δ ω) (control : Control) (id : Nat) : LinkState δ ω :=
  { s with control := s.control.push ⟨control, id⟩ }

/-- Forgets all frames of both directions and counts ids from the start. -/
def clear (s : LinkState δ ω) : LinkState δ ω :=
  { s with
    window := s.window.clear
    control := s.control.clear
    nextId := 0
    receiver := s.receiver.reset
    journal := .cleared :: s.journal }

end LinkState

end FramedLink
