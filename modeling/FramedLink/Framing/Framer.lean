import FramedLink.Frame.Image

/-! # The framer

A framer takes the bytes of a stream in chunks of any size. It keeps those that may still turn out
to be a frame in a buffer and examines them one after the other, counts what it finds, and gives
notice of each frame and of each loss of the stream of frames. When the bytes of the buffer turn
out not to be a frame, the first of them is dropped and the others are examined anew, so that no
frame is lost behind bytes that only look like the start of one.
-/

namespace FramedLink.Framing

structure Counters where
  bytes : Nat := 0
  dataFrames : Nat := 0
  controlFrames : Nat := 0
  /-- Places with a bad checksum, or with a bad type code behind the start bytes. -/
  crcErrors : Nat := 0
  resyncs : Nat := 0
  deriving DecidableEq, Repr, Inhabited

inductive Happening where
  | frame (frame : Frame)
  | lost
  deriving DecidableEq, Repr

/-- What happened, and the counters right after it. -/
structure Notice where
  counters : Counters
  happening : Happening
  deriving DecidableEq, Repr

/-- A framer's account of the stream. -/
structure Account where
  counters : Counters := {}
  /-- The last thing noticed was a frame. -/
  inSync : Bool := false
  /-- The present loss has been noticed already. -/
  lossNoticed : Bool := false
  deriving DecidableEq, Repr, Inhabited

namespace Account

def takeFrame (a : Account) (f : Frame) : Account × Option Notice :=
  let counters :=
    match f with
    | .data _ => { a.counters with dataFrames := a.counters.dataFrames + 1 }
    | .control _ => { a.counters with controlFrames := a.counters.controlFrames + 1 }
  (⟨counters, true, false⟩, some ⟨counters, .frame f⟩)

/-- The account after bytes that belong to no frame; only the first of a loss are noticed. -/
def takeLoss (a : Account) : Account × Option Notice :=
  if a.lossNoticed then ({ a with inSync := false }, none)
  else
    let counters := { a.counters with resyncs := a.counters.resyncs + 1 }
    (⟨counters, false, true⟩, some ⟨counters, .lost⟩)

def addError (a : Account) : Account :=
  { a with counters.crcErrors := a.counters.crcErrors + 1 }

end Account

/-- What a framer looks for next. -/
inductive Stage where
  | start
  | type
  /-- The rest of the first eight bytes. -/
  | header
  /-- The payload and the checksum of a data frame. -/
  | rest
  deriving DecidableEq, Repr, Inhabited

/-- How many stages are still to come. -/
def Stage.ahead : Stage → Nat
  | start => 3
  | type => 2
  | header => 1
  | rest => 0

structure Framer where
  /-- The bytes of storage for a frame that is not complete. -/
  capacity : Nat := Frame.maxSize
  /-- The bytes that may still turn out to be a frame. -/
  buffer : Bytes := []
  /-- How many bytes of the buffer have been examined. -/
  position : Nat := 0
  /-- The size of the frame that is announced, or of its part that tells the size. -/
  frameSize : Nat := 0
  stage : Stage := .start
  account : Account := {}
  deriving DecidableEq, Repr, Inhabited

namespace Framer

open FramedLink.Frame

/-- A framer with storage for at least one frame. -/
def ofCapacity (capacity : Nat) : Framer := { capacity := max capacity maxSize }

/-- The counters since the start or the last `clearCounters`. -/
def counters (f : Framer) : Counters := f.account.counters

def inSync (f : Framer) : Bool := f.account.inSync

/-- Drops the first `n` bytes and examines the others from the start. -/
def discard (f : Framer) (n : Nat) : Framer :=
  { f with buffer := f.buffer.drop n, position := 0, frameSize := 0, stage := .start }

/-- Takes the first `size` bytes for the frame `frame`. -/
def complete (f : Framer) (frame : Frame) (size : Nat) : Framer × Option Notice :=
  let (account, notice) := f.account.takeFrame frame
  ({ f with account }.discard size, notice)

/-- Refuses the bytes of a frame with another checksum. This alone is no loss: the bytes that are
examined anew show whether there is one. -/
def refuse (f : Framer) : Framer × Option Notice :=
  ({ f with account := f.account.addError }.discard 1, none)

def searchStart (f : Framer) (byte : UInt8) : Framer × Option Notice :=
  if f.position = 0 then
    if byte = start1 then ({ f with position := 1 }, none)
    else
      let (account, notice) := f.account.takeLoss
      ({ f with account }.discard 1, notice)
  else if byte = start2 then ({ f with position := 2, stage := .type }, none)
  else (f.discard 1, none)

def searchType (f : Framer) (byte : UInt8) : Framer × Option Notice :=
  if byte = start1 then (f.discard 2, none)
  else if FrameType.ofCode? (byte.toNat / 8) = none then
    let (account, notice) := f.account.addError.takeLoss
    ({ f with account }.discard 1, notice)
  else
    ({ f with position := f.position + 1, frameSize := headerSize, stage := .header }, none)

/-- Decides what the first eight bytes are, once all of them are there. -/
def headerComplete (f : Framer) : Framer × Option Notice :=
  match ControlFrame.ofHeader (f.buffer.take controlSize) with
  | .ok frame =>
    match checkSum ((f.buffer.drop 2).take 2) ((f.buffer.drop 4).take 4) with
    | .ok () => f.complete (.control frame) controlSize
    | .error _ => f.refuse
  | .error _ =>
    match DataHeader.ofBytes (f.buffer.take headerSize) with
    | .ok header => ({ f with frameSize := header.frameSize, stage := .rest }, none)
    | .error _ => (f.discard 1, none)

/-- Decides whether the bytes are a data frame, once all of them are there. -/
def dataComplete (f : Framer) : Framer × Option Notice :=
  let payloadEnd := f.frameSize - footerSize
  match checkSum ((f.buffer.take payloadEnd).drop 2)
      ((f.buffer.take f.frameSize).drop payloadEnd) with
  | .error _ => f.refuse
  | .ok () =>
    match DataHeader.ofBytes (f.buffer.take headerSize) with
    | .error _ => (f.discard 1, none)
    | .ok header =>
      let payload := (f.buffer.take payloadEnd).drop headerSize
      f.complete (.data ⟨header.id, header.metadata, payload⟩) f.frameSize

def examineNext (f : Framer) (byte : UInt8) : Framer × Option Notice :=
  match f.stage with
  | .start => f.searchStart byte
  | .type => f.searchType byte
  | .header =>
    let f := { f with position := f.position + 1 }
    if f.position = headerSize then f.headerComplete else (f, none)
  | .rest =>
    let f := { f with position := f.position + 1 }
    if f.position = f.frameSize then f.dataComplete else (f, none)

/-- What is still to be done, as one number: a byte to be dropped counts for more than any stage,
and a stage for more than any byte to be examined. -/
def work (f : Framer) : Nat :=
  (4 * f.buffer.length + f.stage.ahead) * (f.buffer.length + 1) + (f.buffer.length - f.position)

def Nearer (f g : Framer) : Prop := f.work < g.work

private theorem nearer_discard {f g : Framer} {n : Nat} (same : f.buffer = g.buffer) (hn : 0 < n)
    (some : 0 < g.buffer.length) : (f.discard n).Nearer g := by
  have first : Stage.start.ahead = 3 := rfl
  simp only [Nearer, work, discard, first, same, List.length_drop]
  generalize left : g.buffer.length - n = l
  have fewer := Nat.mul_le_mul (show 4 * l + 4 ≤ 4 * g.buffer.length + g.stage.ahead by omega)
    (show l + 1 ≤ g.buffer.length + 1 by omega)
  rw [Nat.succ_mul] at fewer
  omega

private theorem nearer_of_stage {f g : Framer} (same : f.buffer = g.buffer)
    (later : f.stage.ahead < g.stage.ahead) : f.Nearer g := by
  simp only [Nearer, work, same]
  have fewer := Nat.mul_le_mul_right (g.buffer.length + 1)
    (show 4 * g.buffer.length + f.stage.ahead + 1 ≤ 4 * g.buffer.length + g.stage.ahead by omega)
  rw [Nat.succ_mul] at fewer
  omega

private theorem nearer_of_position {f g : Framer} (same : f.buffer = g.buffer)
    (stage : f.stage = g.stage) (further : g.position < f.position)
    (inside : g.position < g.buffer.length) : f.Nearer g := by
  simp only [Nearer, work, same, stage]
  omega

theorem nearer_examineNext {f : Framer} (inside : f.position < f.buffer.length) (byte : UInt8) :
    (f.examineNext byte).1.Nearer f := by
  have discarded {g : Framer} {n : Nat} (same : g.buffer = f.buffer) (hn : 0 < n) :
      (g.discard n).Nearer f := nearer_discard same hn (by omega)
  unfold examineNext
  split
  · next stage =>
    unfold searchStart
    repeat' split
    · next first _ =>
      exact nearer_of_position rfl rfl (show f.position < 1 by rw [first]; exact Nat.one_pos) inside
    · exact discarded rfl Nat.one_pos
    · exact nearer_of_stage rfl (by rw [stage]; exact Nat.lt_succ_self _)
    · exact discarded rfl Nat.one_pos
  · next stage =>
    unfold searchType
    repeat' split
    · exact discarded rfl Nat.two_pos
    · exact discarded rfl Nat.one_pos
    · exact nearer_of_stage rfl (by rw [stage]; exact Nat.lt_succ_self _)
  · next stage =>
    simp only
    split
    · unfold headerComplete
      repeat' split
      · exact discarded rfl (by decide)
      · exact discarded rfl Nat.one_pos
      · exact nearer_of_stage rfl (by rw [stage]; exact Nat.lt_succ_self _)
      · exact discarded rfl Nat.one_pos
    · exact nearer_of_position rfl rfl (Nat.lt_succ_self _) inside
  · simp only
    split
    · next full =>
      unfold dataComplete
      simp only
      repeat' split
      · exact discarded rfl Nat.one_pos
      · exact discarded rfl Nat.one_pos
      · exact discarded rfl (full ▸ Nat.succ_pos _)
    · exact nearer_of_position rfl rfl (Nat.lt_succ_self _) inside

/-- Examines the bytes of the buffer up to its end. -/
def examineAll (f : Framer) : Framer × List Notice :=
  if h : f.position < f.buffer.length then
    let examined := f.examineNext f.buffer[f.position]
    let (last, notices) := examined.1.examineAll
    (last, examined.2.toList ++ notices)
  else (f, [])
termination_by f.work
decreasing_by exact nearer_examineNext h _

def receiveByte (f : Framer) (byte : UInt8) : Framer × List Notice :=
  { f with buffer := f.buffer ++ [byte] }.examineAll

def receiveBytes : Framer → Bytes → Framer × List Notice
  | f, [] => (f, [])
  | f, byte :: rest =>
    let (f, first) := f.receiveByte byte
    let (f, others) := f.receiveBytes rest
    (f, first ++ others)

/-- The framer after a chunk of the stream, and what it noticed in it. -/
def receive (f : Framer) (chunk : Bytes) : Framer × List Notice :=
  { f with account.counters.bytes := f.counters.bytes + chunk.length }.receiveBytes chunk

/-- The framer at the start of another stream; the counters go on. -/
def reset (f : Framer) : Framer :=
  { f.discard f.buffer.length with account := { counters := f.counters } }

def clearCounters (f : Framer) : Framer := { f with account.counters := {} }

end Framer

end FramedLink.Framing
