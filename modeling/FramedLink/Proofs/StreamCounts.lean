import FramedLink.Proofs.Chunking
import FramedLink.Proofs.GreedyDecoding

/-! # What a framer counts

The counters of a framer are those of its findings: so many data frames and control frames, so many
places with a bad checksum or a bad type code, and so many losses of the stream. A notice carries
the counters of the findings up to the one it is about.
-/

namespace FramedLink

open FramedLink.Frame

def Frame.isControl : Frame → Bool
  | .data _ => false
  | .control _ => true

namespace Framing

namespace Finding

/-- The finding is a frame of which this holds. -/
def isFrame (p : Frame → Bool) (finding : Finding) : Bool := finding.frame?.any p

/-- A checksum or a type code is bad. -/
def isError : Finding → Bool
  | .flaw .badType | .flaw .badChecksum => true
  | _ => false

/-- Bytes that belong to no frame, whatever follows them. -/
def isLoss : Finding → Bool
  | .flaw .noise | .flaw .badType => true
  | _ => false

end Finding

theorem Finding.countP_isFrame (p : Frame → Bool) (findings : List Finding) :
    findings.countP (·.isFrame p) = (findings.filterMap Finding.frame?).countP p := by
  rw [List.countP_filterMap]
  congr 1
  funext finding
  cases finding <;> rfl

/-- How often the stream of frames is lost: a loss lasts until the next frame. It may have been lost
before. -/
def losses : Bool → List Finding → Nat
  | _, [] => 0
  | _, .frame _ :: rest => losses false rest
  | lost, flaw :: rest =>
    if flaw.isLoss then losses true rest + (!lost).toNat else losses lost rest

/-- Notice of a loss is given. -/
def Notice.isLoss (notice : Notice) : Bool := notice.happening = .lost

/-- The counters of a stream of so many bytes with these findings. -/
def Counters.ofFindings (bytes : Nat) (findings : List Finding) : Counters where
  bytes
  dataFrames := findings.countP (·.isFrame (!·.isControl))
  controlFrames := findings.countP (·.isFrame Frame.isControl)
  crcErrors := findings.countP Finding.isError
  resyncs := losses false findings

namespace Account

variable (a : Account)

/-- What an account counts further with these findings, of which it gives these notices. -/
structure Counts (findings : List Finding) (after : Account) (notices : List Notice) : Prop where
  bytes : after.counters.bytes = a.counters.bytes
  dataFrames : after.counters.dataFrames =
    a.counters.dataFrames + findings.countP (·.isFrame (!·.isControl))
  controlFrames : after.counters.controlFrames =
    a.counters.controlFrames + findings.countP (·.isFrame Frame.isControl)
  crcErrors : after.counters.crcErrors = a.counters.crcErrors + findings.countP Finding.isError
  resyncs : after.counters.resyncs = a.counters.resyncs + losses a.lossNoticed findings
  lost : notices.countP Notice.isLoss = losses a.lossNoticed findings

private theorem counts_take (finding : Finding) :
    a.Counts [finding] (a.take finding).1 (a.take finding).2.toList := by
  obtain ⟨counters, inSync, lossNoticed⟩ := a
  rcases finding with (f | f) | flaw
  · exact ⟨rfl, rfl, rfl, rfl, rfl, rfl⟩
  · exact ⟨rfl, rfl, rfl, rfl, rfl, rfl⟩
  · cases lossNoticed <;> cases flaw <;> exact ⟨rfl, rfl, rfl, rfl, rfl, rfl⟩

/-- What is noticed of a loss decides how often the stream is lost from then on. -/
theorem losses_cons (finding : Finding) (rest : List Finding) :
    losses a.lossNoticed (finding :: rest) =
      losses a.lossNoticed [finding] + losses (a.take finding).1.lossNoticed rest := by
  obtain ⟨counters, inSync, lossNoticed⟩ := a
  rcases finding with (f | f) | flaw
  · exact (Nat.zero_add _).symm
  · exact (Nat.zero_add _).symm
  · cases lossNoticed <;> cases flaw <;>
      simp [losses, Finding.isLoss, take, takeLoss, addError, Nat.add_comm]

theorem counts_takeAll (findings : List Finding) :
    a.Counts findings (a.takeAll findings).1 (a.takeAll findings).2 := by
  induction findings generalizing a with
  | nil => exact ⟨rfl, rfl, rfl, rfl, rfl, rfl⟩
  | cons finding rest ih =>
    have here := a.counts_take finding
    have later := ih (a.take finding).1
    have split (p : Finding → Bool) :
        (finding :: rest).countP p = [finding].countP p + rest.countP p := by
      rw [← List.singleton_append, List.countP_append]
    refine ⟨later.bytes.trans here.bytes, ?_, ?_, ?_, ?_, ?_⟩
    · rw [split, ← Nat.add_assoc, ← here.dataFrames]
      exact later.dataFrames
    · rw [split, ← Nat.add_assoc, ← here.controlFrames]
      exact later.controlFrames
    · rw [split, ← Nat.add_assoc, ← here.crcErrors]
      exact later.crcErrors
    · rw [losses_cons, ← Nat.add_assoc, ← here.resyncs]
      exact later.resyncs
    · rw [losses_cons, ← here.lost, ← later.lost]
      exact List.countP_append

theorem counters_takeAll (findings : List Finding) :
    (takeAll {} findings).1.counters = .ofFindings 0 findings := by
  have counts := counts_takeAll {} findings
  have dataFrames := counts.dataFrames
  have controlFrames := counts.controlFrames
  have crcErrors := counts.crcErrors
  have resyncs := counts.resyncs
  simp only [Nat.zero_add] at dataFrames controlFrames crcErrors resyncs
  rw [Counters.ofFindings, ← dataFrames, ← controlFrames, ← crcErrors, ← resyncs]
  exact congrArg (fun bytes => { (takeAll {} findings).1.counters with bytes }) counts.bytes

private theorem counters_of_take {finding : Finding} {notice : Notice}
    (noticed : (a.take finding).2 = some notice) :
    notice.counters = (a.take finding).1.counters ∧
      ∀ f, notice.happening = .frame f → finding = .frame f := by
  obtain ⟨counters, inSync, lossNoticed⟩ := a
  rcases finding with (f | f) | flaw
  · cases noticed
    exact ⟨rfl, fun _ same => by cases same; rfl⟩
  · cases noticed
    exact ⟨rfl, fun _ same => by cases same; rfl⟩
  · cases lossNoticed <;> cases flaw <;> cases noticed <;> exact ⟨rfl, nofun⟩

/-- Each of several notices is about one of the findings and carries the counters behind it. -/
theorem notice_takeAll {findings : List Finding} {earlier later : List Notice} {notice : Notice}
    (noticed : (a.takeAll findings).2 = earlier ++ notice :: later) :
    ∃ front finding back, findings = front ++ finding :: back ∧ (a.takeAll front).2 = earlier ∧
      notice.counters = (a.takeAll (front ++ [finding])).1.counters ∧
        ∀ f, notice.happening = .frame f → finding = .frame f := by
  induction findings generalizing a earlier with
  | nil =>
    have none : [] = earlier ++ notice :: later := noticed
    simp at none
  | cons finding rest ih =>
    have step : (a.takeAll (finding :: rest)).2 =
      (a.take finding).2.toList ++ ((a.take finding).1.takeAll rest).2 := rfl
    rw [step] at noticed
    have further {earlier' : List Notice} (split : earlier = (a.take finding).2.toList ++ earlier')
        (others : ((a.take finding).1.takeAll rest).2 = earlier' ++ notice :: later) :
        ∃ front found back, finding :: rest = front ++ found :: back ∧
          (a.takeAll front).2 = earlier ∧
            notice.counters = (a.takeAll (front ++ [found])).1.counters ∧
              ∀ f, notice.happening = .frame f → found = .frame f := by
      obtain ⟨front, found, back, rfl, before, counters, frame⟩ := ih _ others
      refine ⟨finding :: front, found, back, rfl, ?_, counters, frame⟩
      rw [split, ← before]
      rfl
    cases first : (a.take finding).2 with
    | none =>
      rw [first] at noticed further
      exact further rfl noticed
    | some n =>
      rw [first] at noticed further
      cases earlier with
      | nil =>
        obtain ⟨rfl, -⟩ := List.cons.inj noticed
        obtain ⟨counters, frame⟩ := a.counters_of_take first
        exact ⟨[], finding, rest, rfl, rfl, counters, frame⟩
      | cons e earlier' =>
        obtain ⟨rfl, others⟩ := List.cons.inj noticed
        exact further rfl others

private theorem take_withBytes (bytes : Nat) (finding : Finding) :
    (a.withBytes bytes).take finding =
      ((a.take finding).1.withBytes bytes, (a.take finding).2.map (·.withBytes bytes)) := by
  rcases finding with f | flaw
  · exact a.takeFrame_withBytes f bytes
  · cases flaw with
    | noise => exact a.takeLoss_withBytes bytes
    | badType => exact a.addError.takeLoss_withBytes bytes
    | loneStart => rfl
    | idlePair => rfl
    | badChecksum => rfl

theorem takeAll_withBytes (bytes : Nat) (findings : List Finding) :
    (a.withBytes bytes).takeAll findings =
      ((a.takeAll findings).1.withBytes bytes,
        (a.takeAll findings).2.map (·.withBytes bytes)) := by
  induction findings generalizing a with
  | nil => rfl
  | cons finding rest ih =>
    simp only [takeAll, take_withBytes, ih, List.map_append]
    cases (a.take finding).2 <;> rfl

end Account

namespace Framer

/-- A framer has counted what there is in the bytes that it was given, and keeps those about which
nothing is decided yet. -/
structure Counted (f : Framer) (bytes : Bytes) : Prop where
  settled : f.Settled
  buffer : f.buffer = (scan 0 bytes).2
  account : f.account = (Account.takeAll {} (scan 0 bytes).1).1.withBytes bytes.length

namespace Counted

variable {f : Framer} {bytes : Bytes}

theorem new (capacity : Nat) : Counted { capacity } [] := ⟨⟨.inl rfl, rfl⟩, rfl, rfl⟩

theorem counters (h : f.Counted bytes) :
    f.counters = .ofFindings bytes.length (scan 0 bytes).1 := by
  have findings := Account.counters_takeAll (scan 0 bytes).1
  rw [Framer.counters, h.account]
  exact congrArg (fun counters => { counters with bytes := bytes.length }) findings

theorem scan_eq (h : f.Counted bytes) (chunk : Bytes) :
    scan 0 (bytes ++ chunk) =
      ((scan 0 bytes).1 ++ (scan 0 (f.buffer ++ chunk)).1, (scan 0 (f.buffer ++ chunk)).2) := by
  rw [h.buffer]
  exact scan_append bytes chunk

theorem heard (h : f.Counted bytes) (chunk : Bytes) :
    ((f.receive chunk).1.account, (f.receive chunk).2) =
      ((Account.takeAll {} (scan 0 bytes).1).1.withBytes (bytes ++ chunk).length).takeAll
        (scan 0 (f.buffer ++ chunk)).1 := by
  have read := (reads_receive h.settled chunk).heard
  have count : f.counters.bytes + chunk.length = (bytes ++ chunk).length := by
    rw [h.counters, List.length_append]
    rfl
  rw [read, count, h.account]
  rfl

theorem receive (h : f.Counted bytes) (chunk : Bytes) :
    (f.receive chunk).1.Counted (bytes ++ chunk) := by
  have read := reads_receive h.settled chunk
  refine ⟨read.settled, ?_, ?_⟩
  · rw [read.buffer, h.scan_eq chunk]
  · have account := (Prod.ext_iff.mp (h.heard chunk)).1
    simp only at account
    rw [account, Account.takeAll_withBytes, h.scan_eq chunk, Account.takeAll_append]

/-- The losses counted are those of which a new framer gives notice. -/
theorem resyncs (h : f.Counted bytes) (capacity : Nat) :
    f.counters.resyncs =
      ((Framer.receive { capacity } bytes).2).countP Notice.isLoss := by
  have heard := (Prod.ext_iff.mp ((Counted.new capacity).heard bytes)).2
  have losses := (Account.counts_takeAll {} (scan 0 bytes).1).lost
  rw [h.counters]
  refine losses.symm.trans ?_
  have new : (Account.takeAll {} (scan 0 ([] : Bytes)).1).1 = {} := rfl
  simp only at heard
  rw [heard, new, Account.takeAll_withBytes, List.countP_map]
  rfl

/-- A notice of a frame carries the counters of the stream up to that frame, with the bytes of the
whole chunk. -/
theorem notice (h : f.Counted bytes) {chunk : Bytes} {earlier later : List Notice}
    {notice : Notice} (noticed : (f.receive chunk).2 = earlier ++ notice :: later) {frame : Frame}
    (happening : notice.happening = .frame frame) :
    ∃ front back, (scan 0 (bytes ++ chunk)).1 = front ++ .frame frame :: back ∧
      front.filterMap Finding.frame? = greedyDecode bytes ++ earlier.filterMap Notice.frame? ∧
        notice.counters = .ofFindings (bytes ++ chunk).length (front ++ [.frame frame]) := by
  have heard := (Prod.ext_iff.mp (h.heard chunk)).2
  rw [noticed] at heard
  obtain ⟨front, finding, back, split, before, counters, same⟩ :=
    Account.notice_takeAll _ heard.symm
  obtain rfl := same frame happening
  refine ⟨(scan 0 bytes).1 ++ front, back, ?_, ?_, ?_⟩
  · rw [h.scan_eq chunk, split, List.append_assoc]
  · rw [List.filterMap_append, frames_scan, ← before, frames_takeAll]
  · have whole := Account.counters_takeAll ((scan 0 bytes).1 ++ (front ++ [.frame frame]))
    rw [Account.takeAll_append] at whole
    rw [counters, Account.takeAll_withBytes, List.append_assoc]
    exact congrArg (fun counters => { counters with bytes := (bytes ++ chunk).length }) whole

end Counted

end Framer

end Framing

end FramedLink
