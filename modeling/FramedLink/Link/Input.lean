import FramedLink.Link.Upper

/-! # Input of a link

What a link does with the frames of the peer. Data frames are delivered in the order of their ids
and answered with acknowledgements or with requests for the expected frame. Control frames release
frames of the send window, call for them again, or begin the link anew.
-/

namespace FramedLink.LinkState

variable {δ ω υ : Type} [Driver δ]

/-- The id of a reset that asks the peer to begin anew. -/
def resetRequest : Nat := 0

/-- The id of a reset that says that this side has begun anew. -/
def resetResponse : Nat := 1

def takeData (upper : Upper υ ω) (u : υ) (s : LinkState δ ω) (f : DataFrame) :
    υ × LinkState δ ω :=
  match s.receiver.classify f.id with
  | (.accept, receiver) =>
    let s := { s with
      receiver := receiver.accept
      status.rx.dataFrames := s.status.rx.dataFrames + 1 }
    (s.queue .ackAll receiver.expected).deliver upper u f.metadata f.payload
  | (.duplicate, receiver) =>
    (u, { s with receiver }.queue .ackAll receiver.lastDelivered)
  | (.ahead nack, receiver) =>
    let s := { s with receiver, status.rx.idErrors := s.status.rx.idErrors + 1 }
    (u, if nack then s.queue .nackId receiver.expected else s)
  | (.beyond, receiver) =>
    (u, { s with receiver, status.rx.idErrors := s.status.rx.idErrors + 1 })

/-- Counts frames of the send window as acknowledged. The first such frames after a disconnection
show that the peer is there again. -/
def acknowledge (upper : Upper υ ω) (u : υ) (s : LinkState δ ω) (released : Nat) :
    υ × LinkState δ ω :=
  if released = 0 then (u, s)
  else
    let s := { s with status.tx.dataFrames := s.status.tx.dataFrames + released }
    let s := s.note (.released released)
    if s.disconnected then { s with disconnected := false }.raise upper u .connected
    else (u, s)

/-- Counts the frames before `id` as acknowledged and has the others sent again. An `id` that the
window refuses changes nothing. -/
def goBack (upper : Upper υ ω) (u : υ) (s : LinkState δ ω) (id : Nat) : υ × LinkState δ ω :=
  match s.window.nack id with
  | none => (u, s)
  | some (released, window) => { s with window }.acknowledge upper u released

def takeControl (upper : Upper υ ω) (u : υ) (s : LinkState δ ω) (f : ControlFrame) :
    υ × LinkState δ ω :=
  match f.control with
  | .ackAll =>
    let (released, window) := s.window.ackThrough f.id
    { s with window }.acknowledge upper u released
  | .ackOne =>
    let (released, window) := s.window.ackOne f.id
    { s with window }.acknowledge upper u released.toNat
  | .nackId | .nackFraming => s.goBack upper u f.id
  | .reset =>
    if f.id = resetRequest then
      let s := { s.clear with disconnected := false }.queue .reset resetResponse
      let (u, s) := s.raise upper u .reset
      s.raise upper u .connected
    else { s with disconnected := false }.raise upper u .connected

/-- Asks the peer for the expected frame, because the stream of frames was lost. -/
def takeLoss (s : LinkState δ ω) : LinkState δ ω :=
  let receiver := s.receiver.claimNack.2
  { s with receiver }.queue .nackFraming receiver.expected

/-- Takes a notice of the framer. The counters are those of the event noticed. -/
def takeNotice (upper : Upper υ ω) (us : υ × LinkState δ ω) (notice : Framing.Notice) :
    υ × LinkState δ ω :=
  let (u, s) := us
  let s := { s with status := s.status.withCounters notice.counters }
  match notice.happening with
  | .frame (.data f) => s.takeData upper u f
  | .frame (.control f) => s.takeControl upper u f
  | .lost => (u, s.takeLoss)

end FramedLink.LinkState
