import FramedLink.Link.State
import FramedLink.Frame.Image

/-! # Output of a link

`flush` hands to the driver what it has space for: the control frames first, and data frames only
when no control frame waits. `send` accepts a data frame into the send window.
-/

namespace FramedLink.LinkState

variable {δ ω : Type} [Driver δ]

def space (s : LinkState δ ω) : Nat := Driver.space s.driver

def clock (s : LinkState δ ω) : Nat := Driver.clock s.driver

def hand (s : LinkState δ ω) (bytes : Bytes) : LinkState δ ω :=
  { s with
    driver := Driver.send s.driver bytes
    status.tx.bytes := s.status.tx.bytes + bytes.length
    journal := .left (.handed bytes) :: s.journal }

/-- Hands control frames to the driver while it has space; the frames left over come first in the
result. -/
def handControls : List ControlFrame → LinkState δ ω → List ControlFrame × LinkState δ ω
  | [], s => ([], s)
  | f :: rest, s =>
    if s.space < Frame.controlSize then (f :: rest, s)
    else
      let s := s.hand f.image
      handControls rest
        { s with status.tx.controlFrames := s.status.tx.controlFrames + 1 }

def handOutgoing (s : LinkState δ ω) (f : Outgoing) : LinkState δ ω :=
  let again := if 0 < f.attempts then 1 else 0
  let s := (s.note (.going f.place)).hand f.image
  { s with status.tx.retransmissions := s.status.tx.retransmissions + again }

/-- Hands the pending frames to the driver, in their order, up to the first that it has no space
for. -/
def handPending (now : Nat) : List Outgoing → LinkState δ ω → List Outgoing × LinkState δ ω
  | [], s => ([], s)
  | f :: rest, s =>
    if f.phase = .sent then
      let (rest, s) := handPending now rest s
      (f :: rest, s)
    else if s.space < f.image.length then (f :: rest, s)
    else
      let (rest, s) := handPending now rest (s.handOutgoing f)
      (f.markSent now :: rest, s)

/-! ## What handing over leaves alone -/

theorem handControls_frame (queue : List ControlFrame) (s : LinkState δ ω) :
    (handControls queue s).2 =
      { s with
        driver := (handControls queue s).2.driver
        status := (handControls queue s).2.status
        journal := (handControls queue s).2.journal } := by
  induction queue generalizing s with
  | nil => rfl
  | cons f rest ih =>
    rw [handControls]
    split
    · rfl
    · exact ih _

theorem handPending_frame (now : Nat) (frames : List Outgoing) (s : LinkState δ ω) :
    (handPending now frames s).2 =
      { s with
        driver := (handPending now frames s).2.driver
        status := (handPending now frames s).2.status
        journal := (handPending now frames s).2.journal } := by
  induction frames generalizing s with
  | nil => rfl
  | cons f rest ih =>
    rw [handPending]
    split
    · exact ih s
    · split
      · rfl
      · exact ih _

/-! ## Flushing and sending -/

/-- Hands to the driver what it has space for. -/
def flush (s : LinkState δ ω) : LinkState δ ω :=
  match handControls s.control.waiting s with
  | (f :: rest, s) => { s with control.waiting := f :: rest }
  | ([], s) =>
    let (frames, s) := handPending s.clock s.window.frames s
    { s with control.waiting := [], window.frames := frames }

/-- Accepts a data frame for sending, and hands over what the driver has space for. -/
def send (s : LinkState δ ω) (metadata : Nat) (payload : Bytes) :
    Except Fault Unit × LinkState δ ω :=
  if Frame.maxPayload < payload.length then
    (.error (.tooBig payload.length Frame.maxPayload), s)
  else if payload = [] then (.error .emptyPayload, s)
  else if Frame.maxMetadata < metadata then (.error (.invalidMetadata metadata), s)
  else if s.window.isFull then (.error (.windowFull 1 0), s)
  else
    let frame : DataFrame := ⟨s.nextId, metadata, payload⟩
    match s.window.push s.nextId frame.image with
    | none => (.error .outOfStorage, s)
    | some window =>
      let s := { s with window, nextId := FrameId.next s.nextId }
      (.ok (), (s.note (.accepted metadata payload)).flush)

end FramedLink.LinkState
