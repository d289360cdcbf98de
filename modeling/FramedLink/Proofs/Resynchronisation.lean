import FramedLink.Proofs.Encoding
import FramedLink.Proofs.FrameStream
import FramedLink.Proofs.Incidents

/-! # Finding the frames again

Whatever a framer was given before, as much filler as the largest frame has bytes puts it in front
of the next frame. What it has kept may still announce a frame, and frames may be announced further
on in it, but none of them reaches beyond the filler: `resumes_receiveChunks`.
-/

namespace FramedLink

open FramedLink.Frame

/-! ## Where the bytes suffice -/

private theorem DataHeader.frameSize_le_of_ofBytes {bytes : Bytes} {h : DataHeader}
    (read : ofBytes bytes = .ok h) : h.frameSize ≤ maxSize := by
  obtain ⟨-, -, -, most⟩ := (toBytes_of_ofBytes read).1
  simp only [frameSize, maxSize]
  omega

namespace Frame

private theorem size_le_of_valid {f : Frame} (valid : f.Valid) : f.size ≤ maxSize := by
  cases f with
  | control f => exact (by decide : controlSize ≤ maxSize)
  | data f =>
    obtain ⟨-, -, -, most⟩ := valid
    simp only [DataFrame.header] at most
    simp only [size, maxSize]
    omega

private theorem map_checkSum_error {covered trailer : Bytes} {make : Unit → Frame} {fault : Fault}
    (refused : (checkSum covered trailer).map make = .error fault) :
    ∃ computed found, fault = .checksumMismatch computed found := by
  cases sum : checkSum covered trailer with
  | ok =>
    rw [sum] at refused
    cases refused
  | error =>
    rw [sum] at refused
    cases refused
    exact checkSum_error sum

private theorem not_tooShort {bytes : Bytes} (long : maxSize ≤ bytes.length) :
    ¬ TooShort bytes := by
  rintro ⟨needed, got, short⟩
  have header : headerSize ≤ bytes.length := Nat.le_trans (by decide) long
  cases control : ControlFrame.ofHeader bytes with
  | ok f =>
    rw [decode_of_control header control] at short
    obtain ⟨_, _, other⟩ := map_checkSum_error short
    cases other
  | error =>
    rw [decode_of_no_control header control] at short
    cases read : DataHeader.ofBytes bytes with
    | error fault =>
      rw [read] at short
      cases short
      exact Nat.not_lt_of_le header (DataHeader.lt_of_ofBytes_eq_bufferTooSmall read)
    | ok h =>
      have whole : h.frameSize ≤ bytes.length :=
        Nat.le_trans (DataHeader.frameSize_le_of_ofBytes read) long
      simp only [read, Except.bind, checkLength_of_le whole] at short
      obtain ⟨_, _, other⟩ := map_checkSum_error short
      cases other

end Frame

namespace Framing

theorem examine_of_long {bytes : Bytes} (long : maxSize ≤ bytes.length) :
    ∃ finding, examine bytes = some finding ∧ finding.length ≤ maxSize := by
  have three : 3 ≤ bytes.length := Nat.le_trans (by decide) long
  cases place bytes with
  | empty | oneStart | bothStarts => simp at three
  | noise h rest => exact ⟨_, examine_noise h rest, by decide⟩
  | loneStart h rest => exact ⟨_, examine_loneStart h rest, by decide⟩
  | idlePair rest => exact ⟨_, examine_idlePair rest, by decide⟩
  | badType h untyped rest => exact ⟨_, examine_badType h untyped rest, by decide⟩
  | announced h =>
    cases found : examine bytes with
    | none => exact absurd (h.examine_eq_none_iff.mp found) (not_tooShort long)
    | some finding =>
      refine ⟨finding, rfl, ?_⟩
      cases finding with
      | frame f => exact size_le_of_valid (image_of_decode (h.examine_eq_frame_iff.mp found)).1
      | flaw flaw =>
        rw [h.eq_badChecksum found]
        decide

/-! ## Filler -/

private theorem scan_replicate (n : Nat) :
    scan 0 (List.replicate (n + 1) start1) = (List.replicate n (.flaw .loneStart), [start1]) := by
  induction n with
  | zero => rfl
  | succ n ih =>
    have lone : examine (List.replicate (n + 2) start1) = some (.flaw .loneStart) :=
      examine_loneStart (by decide) (List.replicate n start1)
    have rest : (List.replicate (n + 2) start1).drop (Finding.flaw .loneStart).length =
        List.replicate (n + 1) start1 := rfl
    rw [scan_of_some lone, rest, ih]
    rfl

/-- Behind any bytes, enough filler leaves nothing undecided but its own last byte. -/
theorem scan_filler (bytes : Bytes) {filler : Nat} (enough : maxSize ≤ filler) :
    ∃ findings, scan 0 (bytes ++ List.replicate filler start1) = (findings, [start1]) := by
  induction size : bytes.length using Nat.strongRecOn generalizing bytes with
  | _ n ih =>
    cases bytes with
    | nil =>
      obtain ⟨m, rfl⟩ : ∃ m, filler = m + 1 :=
        Nat.exists_eq_succ_of_ne_zero (Nat.ne_of_gt (Nat.lt_of_lt_of_le (by decide) enough))
      exact ⟨_, scan_replicate m⟩
    | cons first behind =>
      have long : maxSize ≤ (first :: behind ++ List.replicate filler start1).length := by
        simp only [List.length_append, List.length_replicate]
        omega
      obtain ⟨finding, found, short⟩ := examine_of_long long
      have some := finding.length_pos
      rw [scan_of_some found]
      -- A finding among the bytes leaves fewer of them in front of the same filler.
      by_cases inside : finding.length ≤ (first :: behind).length
      · rw [List.drop_append_of_le_length inside]
        obtain ⟨findings, rest⟩ := ih ((first :: behind).drop finding.length).length
          (by rw [List.length_drop]; omega) _ rfl
        exact ⟨_, by rw [rest]⟩
      · -- The finding takes some of the filler with it, but never all.
        have left : ((first :: behind) ++ List.replicate filler start1).drop finding.length =
            List.replicate (filler - (finding.length - (first :: behind).length)) start1 := by
          rw [List.drop_append, List.drop_replicate, List.drop_of_length_le (by omega),
            List.nil_append]
        obtain ⟨m, more⟩ : ∃ m, filler - (finding.length - (first :: behind).length) = m + 1 :=
          Nat.exists_eq_succ_of_ne_zero (by
            simp only [List.length_cons]
            omega)
        rw [left, more, scan_replicate]
        exact ⟨_, rfl⟩

private theorem scan_start_images {frames : List Frame} (some : frames ≠ [])
    (valid : ∀ f ∈ frames, f.Valid) :
    scan 0 (start1 :: (frames.map Frame.image).flatten) =
      (.flaw .loneStart :: frames.map .frame, []) := by
  obtain ⟨first, others, rfl⟩ := List.exists_cons_of_ne_nil some
  obtain ⟨rest, begins⟩ := image_begins first
  have lone : examine (start1 :: ((first :: others).map Frame.image).flatten) =
      .some (.flaw .loneStart) := by
    rw [List.map_cons, List.flatten_cons, begins]
    exact examine_loneStart (by decide) _
  have images : (start1 :: ((first :: others).map Frame.image).flatten).drop
      (Finding.flaw .loneStart).length = ((first :: others).map Frame.image).flatten := rfl
  rw [scan_of_some lone, images, scan_images valid]

/-! ## The framer -/

private theorem Account.inSync_takeAll_frames {a : Account} (synced : a.inSync = true)
    (frames : List Frame) : (a.takeAll (frames.map .frame)).1.inSync = true := by
  induction frames generalizing a with
  | nil => exact synced
  | cons f rest ih => exact ih rfl

namespace Framer

/-- Behind so much filler, the framer gave notice of these frames and of nothing else, and is in
sync with nothing left in its buffer. -/
structure Resumes (f : Framer) (filler : Nat) (frames : List Frame)
    (result : Framer × List Notice) : Prop where
  happenings : result.2.map Notice.happening =
    (f.receive (List.replicate filler start1)).2.map Notice.happening ++ frames.map .frame
  buffer : result.1.buffer = []
  inSync : result.1.inSync = true

/-- Whatever was done with a framer, enough filler makes it find the frames that follow. -/
theorem resumes_receiveChunks (capacity : Nat) (before : List Use) {filler : Nat}
    (enough : maxSize ≤ filler) {frames : List Frame} (some : frames ≠ [])
    (valid : ∀ f ∈ frames, f.Valid) {chunks : List Bytes}
    (stream : chunks.flatten =
      List.replicate filler start1 ++ (frames.map Frame.image).flatten) :
    let f := ((ofCapacity capacity).uses before).1
    f.Resumes filler frames (f.receiveChunks chunks) := by
  intro f
  have settled : f.Settled := settled_uses (settled_ofCapacity capacity) before
  have alone := heard_receive settled (List.replicate filler start1)
  have all := heard_receiveChunks settled chunks
  obtain ⟨findings, left⟩ := scan_filler f.buffer enough
  have whole : scan 0 (f.buffer ++ chunks.flatten) =
      (findings ++ .flaw .loneStart :: frames.map .frame, []) := by
    rw [stream, ← List.append_assoc, scan_append, left]
    simp only [List.singleton_append, scan_start_images some valid]
  have happenings := all.happenings
  obtain ⟨count, account⟩ := all.account
  rw [whole, Account.takeAll_append] at happenings account
  have noted := (Account.notes_takeAll (f.account.takeAll findings).1 frames).happenings
  refine ⟨?_, ?_, ?_⟩
  · rw [happenings, List.map_append, alone.happenings, left]
    exact congrArg (_ ++ ·) noted
  · rw [all.buffer, whole]
  · obtain ⟨first, others, rfl⟩ := List.exists_cons_of_ne_nil some
    have synced : ((f.account.takeAll findings).1.takeFrame first).1.inSync = true := rfl
    exact (congrArg Account.inSync account).trans (Account.inSync_takeAll_frames synced others)

/-- The framer waits for the rest of the largest frame, and the filler ends within it. -/
theorem resumes_announced :
    let before : List Use := [.receive [start1, start2, 0, 0xFF]]
    let frames : List Frame := [.control ⟨.ackAll, 5⟩, .data ⟨6, 7, [8, 9]⟩]
    let images := (frames.map Frame.image).flatten
    let chunks := [List.replicate 200 start1, List.replicate 68 start1 ++ images.take 3,
      images.drop 3]
    let f := ((ofCapacity maxSize).uses before).1
    maxSize ≤ 268 ∧ frames ≠ [] ∧ (∀ g ∈ frames, g.Valid) ∧
      chunks.flatten = List.replicate 268 start1 ++ images ∧
      f.Resumes 268 frames (f.receiveChunks chunks) := by
  intro before frames images chunks f
  have enough : maxSize ≤ 268 := by decide
  have some : frames ≠ [] := by decide
  have valid : ∀ g ∈ frames, g.Valid := by decide
  have stream : chunks.flatten =
      List.replicate 268 start1 ++ (frames.map Frame.image).flatten := by
    simp only [chunks, List.flatten_cons, List.flatten_nil, List.append_nil, List.append_assoc,
      List.take_append_drop]
    rw [← List.append_assoc, List.replicate_append_replicate]
  exact ⟨enough, some, valid, stream, resumes_receiveChunks maxSize before enough some valid stream⟩

end Framer

end Framing

end FramedLink
