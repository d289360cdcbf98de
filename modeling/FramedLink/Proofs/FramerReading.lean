import FramedLink.Proofs.Reading

/-! # What a framer finds

A framer works through its buffer byte by byte and starts again behind whatever turns out to be no
frame. What it finds is what is found by reading the stream from the left (`reads_receive`):
between two chunks it keeps just the bytes about which nothing is decided yet.
-/

namespace FramedLink.Framing

open FramedLink.Frame

/-! ## The account of findings -/

namespace Account

/-- The account after a finding. Filler and a bad checksum alone are no loss: what follows shows
whether there is one. -/
def take (a : Account) : Finding → Account × Option Notice
  | .frame f => a.takeFrame f
  | .flaw .noise => a.takeLoss
  | .flaw .badType => a.addError.takeLoss
  | .flaw .badChecksum => (a.addError, none)
  | .flaw .loneStart | .flaw .idlePair => (a, none)

/-- The account after several findings, and the notices in their order. -/
def takeAll (a : Account) : List Finding → Account × List Notice
  | [] => (a, [])
  | finding :: rest =>
    let (a, notice) := a.take finding
    let (a, notices) := a.takeAll rest
    (a, notice.toList ++ notices)

theorem takeAll_append (a : Account) (front back : List Finding) :
    a.takeAll (front ++ back) =
      let (a, first) := a.takeAll front
      let (a, second) := a.takeAll back
      (a, first ++ second) := by
  induction front generalizing a with
  | nil => rfl
  | cons finding rest ih => simp [takeAll, ih]

end Account

namespace Notice

/-- The frame of which notice is given. -/
def frame? (notice : Notice) : Option Frame :=
  match notice.happening with
  | .frame f => some f
  | .lost => none

end Notice

theorem frames_takeAll (a : Account) (findings : List Finding) :
    (a.takeAll findings).2.filterMap Notice.frame? = findings.filterMap Finding.frame? := by
  induction findings generalizing a with
  | nil => rfl
  | cons finding rest ih =>
    have step : (a.take finding).2.toList.filterMap Notice.frame? = finding.frame?.toList := by
      rcases finding with f | flaw
      · rfl
      · cases flaw <;> simp only [Account.take, Account.takeLoss]
        all_goals first | rfl | (split <;> rfl)
    simp only [Account.takeAll, List.filterMap_append, ih, step]
    cases finding <;> rfl

/-! ## One byte -/

theorem Announces.reads_header {bytes : Bytes} (h : Announces bytes)
    (long : headerSize ≤ bytes.length) :
    (∃ f, ControlFrame.ofHeader bytes = .ok f) ∨ ∃ h, DataHeader.ofBytes bytes = .ok h := by
  obtain ⟨b2, behind, rfl, -, typed⟩ := h
  match behind, long with
  | b3 :: b4 :: b5 :: b6 :: b7 :: more, _ =>
    cases type : FrameType.ofCode? (b2.toNat / 8) with
    | none => exact absurd type typed
    | some type' =>
      cases type' with
      | data => exact .inr (by simp [DataHeader.ofBytes, checkStart_start, type, bind, Except.bind])
      | control control =>
        exact .inl (by simp [ControlFrame.ofHeader, checkStart_start, type, bind, Except.bind])

namespace Framer

/-- What a framer knows about the bytes it has examined is true of them. -/
def Consistent (f : Framer) : Prop :=
  match f.stage with
  | .start => f.position = 0 ∨ f.position = 1 ∧ ∃ rest, f.buffer = start1 :: rest
  | .type => f.position = 2 ∧ ∃ rest, f.buffer = start1 :: start2 :: rest
  | .header => Announces f.buffer ∧ f.position < headerSize
  | .rest => ∃ h : DataHeader, DataHeader.ofBytes f.buffer = .ok h ∧ f.frameSize = h.frameSize ∧
      headerSize ≤ f.position ∧ f.position < f.frameSize

/-- The framer after a finding at the front of its buffer. -/
def pass (f : Framer) (finding : Finding) : Framer × Option Notice :=
  let (account, notice) := f.account.take finding
  ({ f with account }.discard finding.length, notice)

/-- What the examination of one byte leads to. -/
inductive Progress (f : Framer) : Framer × Option Notice → Prop where
  /-- Nothing is decided yet. -/
  | further {g : Framer} (buffer : g.buffer = f.buffer) (account : g.account = f.account)
      (capacity : g.capacity = f.capacity) (position : g.position = f.position + 1)
      (consistent : g.Consistent) : Progress f (g, none)
  /-- It is decided what stands at the front of the buffer. -/
  | found {finding : Finding} (at_front : examine f.buffer = some finding) :
      Progress f (f.pass finding)

private theorem progress_searchStart {f : Framer} (consistent : f.Consistent)
    (stage : f.stage = .start) {byte : UInt8} (here : f.buffer[f.position]? = some byte) :
    Progress f (f.searchStart byte) := by
  rw [Consistent, stage] at consistent
  unfold searchStart
  rcases consistent with first | ⟨second, rest, buffer⟩
  · rw [if_pos first]
    rw [first] at here
    obtain ⟨rest, buffer⟩ : ∃ rest, f.buffer = byte :: rest := by
      cases h : f.buffer <;> simp_all
    split
    · next start =>
      refine .further rfl rfl rfl (by simp [first]) ?_
      simp only [Consistent, stage]
      exact .inr ⟨trivial, rest, start ▸ buffer⟩
    · next noise => exact .found (buffer ▸ examine_noise noise rest)
  · rw [if_neg (by omega)]
    rw [second, buffer] at here
    obtain ⟨behind, rfl⟩ : ∃ behind, rest = byte :: behind := by
      cases rest <;> simp_all
    split
    · next start =>
      refine .further rfl rfl rfl (by simp [second]) ?_
      exact ⟨rfl, behind, start ▸ buffer⟩
    · next alone =>
      have lone : examine f.buffer = some (.flaw .loneStart) :=
        buffer ▸ examine_loneStart alone behind
      exact .found lone

private theorem progress_searchType {f : Framer} (consistent : f.Consistent)
    (stage : f.stage = .type) {byte : UInt8} (here : f.buffer[f.position]? = some byte) :
    Progress f (f.searchType byte) := by
  rw [Consistent, stage] at consistent
  obtain ⟨third, rest, buffer⟩ := consistent
  rw [third, buffer] at here
  obtain ⟨behind, rfl⟩ : ∃ behind, rest = byte :: behind := by
    cases rest <;> simp_all
  unfold searchType
  split
  · next start =>
    subst start
    have idle : examine f.buffer = some (.flaw .idlePair) := buffer ▸ examine_idlePair behind
    exact .found idle
  · next noFiller =>
    split
    · next untyped => exact .found (buffer ▸ examine_badType noFiller untyped behind)
    · next typed =>
      refine .further rfl rfl rfl rfl ?_
      exact ⟨⟨byte, behind, buffer, noFiller, typed⟩, by simp [third, headerSize]⟩

private theorem progress_headerComplete {f : Framer} (announced : Announces f.buffer)
    (long : headerSize ≤ f.buffer.length) (position : f.position + 1 = headerSize) :
    Progress f { f with position := f.position + 1 }.headerComplete := by
  unfold headerComplete
  simp only [ControlFrame.ofHeader_take long, DataHeader.ofBytes_take long]
  cases hcontrol : ControlFrame.ofHeader f.buffer with
  | ok frame =>
    simp only
    cases sum : checkSum ((f.buffer.drop 2).take 2) ((f.buffer.drop 4).take 4) with
    | ok =>
      have read := decode_of_readsControl ⟨long, hcontrol, sum⟩
      exact .found (announced.examine_eq_frame_iff.mpr read)
    | error =>
      obtain ⟨_, _, rfl⟩ := checkSum_error sum
      have bad : examine f.buffer = some (.flaw .badChecksum) := by
        rw [announced.examine_eq, decode_of_control long hcontrol, sum]
        rfl
      exact .found bad
  | error =>
    simp only
    cases hdata : DataHeader.ofBytes f.buffer with
    | ok header =>
      refine .further rfl rfl rfl rfl ?_
      exact ⟨header, hdata, rfl, Nat.le_of_eq position.symm, position ▸ header.frameSize_pos⟩
    | error =>
      obtain ⟨_, none⟩ | ⟨_, none⟩ := announced.reads_header long
      · simp [none] at hcontrol
      · simp [none] at hdata

private theorem progress_dataComplete {f : Framer} {header : DataHeader}
    (read : DataHeader.ofBytes f.buffer = .ok header) (size : f.frameSize = header.frameSize)
    (long : f.frameSize ≤ f.buffer.length) (position : f.position + 1 = f.frameSize) :
    Progress f { f with position := f.position + 1 }.dataComplete := by
  have announced := announces_of_ofBytes read
  rw [size] at long
  have longer : headerSize ≤ f.buffer.length := by
    have := header.frameSize_pos
    omega
  have data := (DataHeader.ofBytes_take longer).trans read
  have payloadEnd : header.frameSize - footerSize = headerSize + header.length := by
    simp only [DataHeader.frameSize, overhead]
    omega
  have covered : (f.buffer.take (headerSize + header.length)).drop 2 =
      (f.buffer.drop 2).take (headerSize - 2 + header.length) := by
    rw [List.drop_take]
    congr 1
    simp only [headerSize]
    omega
  have trailer : (f.buffer.take header.frameSize).drop (headerSize + header.length) =
      (f.buffer.drop (headerSize + header.length)).take footerSize := by
    rw [List.drop_take]
    congr 1
    simp only [DataHeader.frameSize, overhead]
    omega
  have payload : (f.buffer.take (headerSize + header.length)).drop headerSize =
      (f.buffer.drop headerSize).take header.length := by
    rw [List.drop_take, Nat.add_sub_cancel_left]
  unfold dataComplete
  simp only [size, payloadEnd, covered, trailer, data, payload]
  cases sum : checkSum ((f.buffer.drop 2).take (headerSize - 2 + header.length))
      ((f.buffer.drop (headerSize + header.length)).take footerSize) with
  | ok =>
    have whole := decode_of_readsData ⟨long, read, sum⟩
    have found := announced.examine_eq_frame_iff.mpr whole
    have passed : (Finding.frame (.data ⟨header.id, header.metadata,
        (f.buffer.drop headerSize).take header.length⟩)).length = header.frameSize := by
      simp only [DataHeader.frameSize, overhead] at long
      simp only [Finding.length, Frame.size, DataHeader.frameSize, List.length_take,
        List.length_drop]
      omega
    have step := Progress.found found
    rw [pass, passed] at step
    exact step
  | error =>
    obtain ⟨_, _, rfl⟩ := checkSum_error sum
    obtain ⟨fault, none⟩ := DataHeader.ofHeader_eq_error read
    have bad : examine f.buffer = some (.flaw .badChecksum) := by
      rw [announced.examine_eq, decode_of_no_control longer none, read]
      simp only [Except.bind, checkLength_of_le long, sum, Except.map]
    exact .found bad

theorem progress_examineNext {f : Framer} (consistent : f.Consistent) {byte : UInt8}
    (here : f.buffer[f.position]? = some byte) : Progress f (f.examineNext byte) := by
  have inside : f.position < f.buffer.length := (List.getElem?_eq_some_iff.mp here).1
  have known := consistent
  unfold examineNext
  split
  · next stage => exact progress_searchStart consistent stage here
  · next stage => exact progress_searchType consistent stage here
  · next stage =>
    simp only [Consistent, stage] at known
    simp only
    split
    · next full => exact progress_headerComplete known.1 (by omega) full
    · next more =>
      refine .further rfl rfl rfl rfl ?_
      simp only [Consistent, stage]
      exact ⟨known.1, by omega⟩
  · next stage =>
    simp only [Consistent, stage] at known
    obtain ⟨header, read, size, behind, before⟩ := known
    simp only
    split
    · next full => exact progress_dataComplete read size (by omega) full
    · next more =>
      refine .further rfl rfl rfl rfl ?_
      simp only [Consistent, stage]
      exact ⟨header, read, size, by omega, by omega⟩

/-! ## The whole buffer -/

theorem Consistent.append {f : Framer} (consistent : f.Consistent) (bytes : Bytes) :
    { f with buffer := f.buffer ++ bytes }.Consistent := by
  unfold Consistent at consistent ⊢
  split at consistent
  · next stage =>
    simp only [stage]
    obtain first | ⟨second, rest, buffer⟩ := consistent
    · exact .inl first
    · exact .inr ⟨second, rest ++ bytes, by rw [buffer, List.cons_append]⟩
  · next stage =>
    simp only [stage]
    obtain ⟨third, rest, buffer⟩ := consistent
    exact ⟨third, rest ++ bytes, by rw [buffer, List.cons_append, List.cons_append]⟩
  · next stage =>
    simp only [stage]
    exact ⟨consistent.1.append bytes, consistent.2⟩
  · next stage =>
    simp only [stage]
    obtain ⟨header, read, size, behind, before⟩ := consistent
    refine ⟨header, ?_, size, behind, before⟩
    rw [← read]
    exact DataHeader.ofBytes_append (DataHeader.length_of_ofBytes read) bytes

/-- The framer has examined all its bytes, and none of them is decided about. -/
structure Settled (f : Framer) : Prop where
  consistent : f.Consistent
  position : f.position = f.buffer.length

theorem Settled.inside {f : Framer} (settled : f.Settled) (bytes : Bytes) :
    f.position ≤ (f.buffer ++ bytes).length := by
  rw [settled.position, List.length_append]
  exact Nat.le_add_right _ _

theorem Settled.undecided {f : Framer} (settled : f.Settled) : examine f.buffer = none := by
  obtain ⟨consistent, position⟩ := settled
  unfold Consistent at consistent
  split at consistent
  · obtain first | ⟨second, rest, buffer⟩ := consistent
    · have empty : f.buffer = [] := List.eq_nil_of_length_eq_zero (by omega)
      rw [empty, examine_nil]
    · have empty : rest = [] := by
        apply List.eq_nil_of_length_eq_zero
        simp only [buffer, List.length_cons] at position
        omega
      rw [buffer, empty, examine_oneStart]
  · obtain ⟨third, rest, buffer⟩ := consistent
    have empty : rest = [] := by
      apply List.eq_nil_of_length_eq_zero
      simp only [buffer, List.length_cons] at position
      omega
    rw [buffer, empty, examine_bothStarts]
  · obtain ⟨announced, before⟩ := consistent
    refine announced.examine_eq_none_iff.mpr ⟨_, _, decode_of_short ?_⟩
    rw [← position]
    exact before
  · obtain ⟨header, read, size, behind, before⟩ := consistent
    have announced := announces_of_ofBytes read
    refine announced.examine_eq_none_iff.mpr ⟨header.frameSize, f.buffer.length, ?_⟩
    obtain ⟨fault, none⟩ := DataHeader.ofHeader_eq_error read
    rw [decode_of_no_control (position ▸ behind) none, read]
    simp only [Except.bind, checkLength_of_lt (position ▸ size ▸ before)]

/-- What becomes of a framer that reads `bytes`, and what it notices. -/
structure Reads (f : Framer) (bytes : Bytes) (result : Framer × List Notice) : Prop where
  settled : result.1.Settled
  capacity : result.1.capacity = f.capacity
  buffer : result.1.buffer = (scan 0 bytes).2
  heard : (result.1.account, result.2) = f.account.takeAll (scan 0 bytes).1

private theorem reads_examineAll (f : Framer) (consistent : f.Consistent)
    (inside : f.position ≤ f.buffer.length) : Reads f f.buffer f.examineAll := by
  induction f using examineAll.induct with
  | case1 f more examined last notices after ih =>
    have progress := progress_examineNext consistent (List.getElem?_eq_getElem more)
    change Progress f examined at progress
    have whole : f.examineAll = (last, examined.2.toList ++ notices) := by
      rw [examineAll, dif_pos more]
      change (examined.1.examineAll.1, examined.2.toList ++ examined.1.examineAll.2) = _
      rw [after]
    rw [whole]
    rw [after] at ih
    clear_value examined
    -- As long as nothing is decided the buffer stays; a finding is the first one of the scan.
    cases progress with
    | @further next buffer account capacity position consistent =>
      have later := ih consistent (by simp only [buffer, position]; omega)
      simp only at later
      rw [buffer] at later
      refine ⟨later.settled, later.capacity.trans capacity, later.buffer, ?_⟩
      rw [← account]
      exact later.heard
    | @found finding at_front =>
      have later := ih (.inl rfl) (Nat.zero_le _)
      have heard := later.heard
      refine ⟨later.settled, later.capacity, ?_, ?_⟩
      · rw [scan_of_some at_front]
        exact later.buffer
      · rw [scan_of_some at_front]
        obtain ⟨account, others⟩ := Prod.ext_iff.mp heard
        exact Prod.ext account (congrArg ((f.account.take finding).2.toList ++ ·) others)
  | case2 f done =>
    rw [examineAll, dif_neg done]
    have settled : f.Settled := ⟨consistent, by omega⟩
    have nothing := scan_of_none settled.undecided
    refine ⟨settled, rfl, ?_, ?_⟩
    · rw [nothing]
    · rw [nothing]
      rfl

/-! ## The stream -/

theorem reads_receiveByte {f : Framer} (settled : f.Settled) (byte : UInt8) :
    Reads f (f.buffer ++ [byte]) (f.receiveByte byte) :=
  let ⟨settled, capacity, buffer, heard⟩ :=
    reads_examineAll { f with buffer := f.buffer ++ [byte] } (settled.consistent.append [byte])
      (settled.inside [byte])
  ⟨settled, capacity, buffer, heard⟩

theorem reads_receiveBytes {f : Framer} (settled : f.Settled) (bytes : Bytes) :
    Reads f (f.buffer ++ bytes) (f.receiveBytes bytes) := by
  induction bytes generalizing f with
  | nil =>
    have nothing := scan_of_none settled.undecided
    rw [List.append_nil]
    exact ⟨settled, rfl, by rw [nothing]; rfl, by rw [nothing]; rfl⟩
  | cons byte rest ih =>
    have first := reads_receiveByte settled byte
    have others := ih first.settled
    have whole := scan_append (f.buffer ++ [byte]) rest
    rw [← List.append_cons] at whole
    rw [first.buffer] at others
    refine ⟨others.settled, others.capacity.trans first.capacity, ?_, ?_⟩
    · rw [whole]
      exact others.buffer
    · rw [whole]
      simp only [Account.takeAll_append, ← first.heard]
      rw [← others.heard]
      rfl

/-- A chunk is counted and then read behind the bytes that are kept. -/
theorem reads_receive {f : Framer} (settled : f.Settled) (chunk : Bytes) :
    Reads { f with account.counters.bytes := f.counters.bytes + chunk.length }
      (f.buffer ++ chunk) (f.receive chunk) :=
  reads_receiveBytes (f := { f with account.counters.bytes := f.counters.bytes + chunk.length })
    ⟨settled.consistent, settled.position⟩ chunk

/-- The frames of which notice is given are those in the bytes that are there. -/
theorem frames_receive {f : Framer} (settled : f.Settled) (chunk : Bytes) :
    (f.receive chunk).2.filterMap Notice.frame? =
      (scan 0 (f.buffer ++ chunk)).1.filterMap Finding.frame? := by
  rw [← frames_takeAll, ← (reads_receive settled chunk).heard]

/-- Between two frames, the bytes of a frame are noticed as that frame and leave nothing behind. -/
theorem receive_image {f : Framer} (settled : f.Settled) (empty : f.buffer = []) {frame : Frame}
    (valid : frame.Valid) :
    ∃ counters, (f.receive frame.image).2 = [⟨counters, .frame frame⟩] ∧
      (f.receive frame.image).1.Settled ∧ (f.receive frame.image).1.buffer = [] := by
  have read := reads_receive settled frame.image
  have examined := examine_image valid []
  have only : scan 0 frame.image = ([.frame frame], []) := by
    rw [List.append_nil] at examined
    rw [scan_of_some examined, Finding.length, ← length_image, List.drop_length]
    rfl
  rw [empty, List.nil_append] at read
  have heard := congrArg Prod.snd read.heard
  rw [only] at heard
  refine ⟨_, heard, read.settled, ?_⟩
  rw [read.buffer, only]

theorem settled_ofCapacity (capacity : Nat) : (ofCapacity capacity).Settled := ⟨.inl rfl, rfl⟩

theorem buffer_reset (f : Framer) : f.reset.buffer = [] := by
  simp [reset, discard]

/-- Only the storage is left of a framer that starts anew. -/
theorem clearCounters_reset (f : Framer) : f.reset.clearCounters = { capacity := f.capacity } := by
  simp only [reset, clearCounters, discard, List.drop_length]

theorem settled_reset (f : Framer) : f.reset.Settled :=
  ⟨.inl rfl, by rw [buffer_reset]; rfl⟩

end Framer

end FramedLink.Framing
