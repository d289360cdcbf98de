import FramedLink.Frame.Id
import FramedLink.Link.Pool

/-! # The send window

The data frames that have been accepted for sending and are not yet acknowledged, oldest first.
Those handed to the driver come before those that still wait. Storage for a frame is lent by the
window's pool and goes back to it with the acknowledgement.
-/

namespace FramedLink

inductive Phase where
  /-- It waits to be handed to the driver, for the first time or again. -/
  | pending
  /-- It has been handed to the driver and waits for its acknowledgement. -/
  | sent
  deriving DecidableEq, Repr

structure Outgoing where
  id : Nat
  buffer : Buffer
  phase : Phase := .pending
  sentAt : Nat := 0
  attempts : Nat := 0
  /-- How many frames had come into the window before it since the window was cleared. Nothing is
  decided by it: it says which frame this is when ids come round again. -/
  place : Nat := 0
  deriving DecidableEq, Repr

namespace Outgoing

def image (f : Outgoing) : Bytes := f.buffer.contents

/-- The attempts are counted up to this number. -/
def maxAttempts : Nat := 0xFFFFFFFF

def markSent (f : Outgoing) (now : Nat) : Outgoing :=
  { f with phase := .sent, sentAt := now, attempts := min (f.attempts + 1) maxAttempts }

def rewind (f : Outgoing) : Outgoing := { f with phase := .pending }

end Outgoing

structure SendWindow where
  capacity : Nat
  /-- Its frames, oldest first. -/
  frames : List Outgoing
  pool : Pool
  /-- How many frames have come into it since it was cleared. -/
  entered : Nat := 0
  deriving DecidableEq, Repr

namespace SendWindow

def empty (capacity : Nat) (pool : Pool) : SendWindow := { capacity, frames := [], pool }

/-! ## Looking at it -/

def length (w : SendWindow) : Nat := w.frames.length

def remaining (w : SendWindow) : Nat := w.capacity - w.length

def isFull (w : SendWindow) : Bool := w.capacity ≤ w.length

/-- The frames that both the places and the storage left allow for. -/
def room (w : SendWindow) : Nat := min w.remaining w.pool.free

def firstPending? (w : SendWindow) : Option Outgoing := w.frames.find? (·.phase = .pending)

/-- Some frame waits for the driver; those that do are the newest. -/
def hasPending (w : SendWindow) : Bool := w.frames.getLast?.any (·.phase = .pending)

/-- The oldest frame, if it has been handed to the driver. -/
def oldestSent? (w : SendWindow) : Option Outgoing := w.frames.head?.filter (·.phase = .sent)

/-- `id` lies on the way from the oldest frame to the newest. -/
def spans (w : SendWindow) (id : Nat) : Bool :=
  match w.frames.head?, w.frames.getLast? with
  | some oldest, some newest =>
    0 ≤ FrameId.distance id oldest.id && FrameId.distance id newest.id ≤ 0
  | _, _ => false

/-! ## Changing it -/

/-- The window with another frame behind the others, if there is storage for it. -/
def push (w : SendWindow) (id : Nat) (image : Bytes) : Option SendWindow :=
  match w.pool.acquire with
  | none => none
  | some (buffer, pool) =>
    some { w with
      frames := w.frames ++ [{ id, buffer := buffer.fill image, place := w.entered }]
      pool
      entered := w.entered + 1 }

/-- The window with the frames `kept`, and the storage of the frames `released` in its pool. -/
def split (w : SendWindow) (released kept : List Outgoing) : SendWindow :=
  { w with frames := kept, pool := w.pool.releaseAll (released.map (·.buffer)) }

/-- A frame is at or before `id`. -/
def isThrough (id : Nat) (f : Outgoing) : Bool := FrameId.distance f.id id ≤ 0

/-- The window without the frames up to `id`, and how many these are. An acknowledgement beyond the
newest frame names no frame of the window and is passed over. -/
def ackThrough (w : SendWindow) (id : Nat) : Nat × SendWindow :=
  match w.frames.getLast? with
  | none => (0, w)
  | some newest =>
    if 0 < FrameId.distance id newest.id then (0, w)
    else
      let released := w.frames.takeWhile (isThrough id)
      (released.length, w.split released (w.frames.dropWhile (isThrough id)))

/-- The window without the frame `id`, and whether there was one. -/
def ackOne (w : SendWindow) (id : Nat) : Bool × SendWindow :=
  match w.frames.find? (·.id = id) with
  | none => (false, w)
  | some released => (true, w.split [released] (w.frames.eraseP (·.id = id)))

/-- The first frame that waits for the driver marked as handed to it at `now`: its id, and the
window after it. -/
def markNext? (w : SendWindow) (now : Nat) : Option (Nat × SendWindow) :=
  match w.frames.span (·.phase = .sent) with
  | (_, []) => none
  | (sent, first :: rest) =>
    some (first.id, { w with frames := sent ++ first.markSent now :: rest })

def sentCount (w : SendWindow) : Nat := w.frames.countP (·.phase = .sent)

/-- The window with every frame to be handed to the driver again. -/
def rewind (w : SendWindow) : SendWindow := { w with frames := w.frames.map (·.rewind) }

/-- The peer asks for the frame `id`: the frames before it are released, and the others are to be
handed to the driver again. An `id` that is neither in the window nor the one behind it is
refused. -/
def nack (w : SendWindow) (id : Nat) : Option (Nat × SendWindow) :=
  match w.frames.getLast? with
  | none => none
  | some newest =>
    if w.spans id || id = FrameId.next newest.id then
      let (released, w) := w.ackThrough (FrameId.prev id)
      some (released, w.rewind)
    else none

def clear (w : SendWindow) : SendWindow := { w.split w.frames [] with entered := 0 }

/-! ## What stays -/

@[simp] theorem length_push {w w' : SendWindow} {id : Nat} {image : Bytes}
    (h : w.push id image = some w') : w'.length = w.length + 1 := by
  unfold push at h
  split at h
  · cases h
  · cases h
    simp [length]

@[simp] theorem length_rewind (w : SendWindow) : w.rewind.length = w.length := by
  simp [rewind, length]

@[simp] theorem frames_clear (w : SendWindow) : w.clear.frames = [] := rfl

end SendWindow

end FramedLink
