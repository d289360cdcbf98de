import FramedLink.Proofs.FramerReading

/-! # Greedy decoding

The frames in a stream can be told without a framer: decode what is at the front; behind a frame go
on behind it, and where there is none go on with the next byte. A framer finds the same frames, and
neither its storage nor the way in which the stream is cut into chunks has a say in it.
-/

namespace FramedLink.Framing

open FramedLink.Frame

/-- The frames in `bytes`, decoded greedily from the left. -/
def greedyDecode (bytes : Bytes) : List Frame :=
  if bytes.length < controlSize then []
  else
    match decode bytes with
    | .ok f => f :: greedyDecode (bytes.drop f.image.length)
    | .error (.bufferTooSmall _ _) => []
    | .error _ => greedyDecode (bytes.drop 1)
termination_by bytes.length
decreasing_by
  · next long =>
    have some : 0 < f.size := (Finding.frame f).length_pos
    simp only [List.length_drop, length_image, controlSize] at long ⊢
    omega
  · next long =>
    simp only [List.length_drop, controlSize] at long ⊢
    omega

/-! ## Places where no frame is announced -/

private theorem decode_of_not_announces {bytes : Bytes} (long : controlSize ≤ bytes.length)
    (none : ¬ Announces bytes) :
    ∃ fault, decode bytes = .error fault ∧ ∀ needed got, fault ≠ .bufferTooSmall needed got := by
  cases control : ControlFrame.ofHeader bytes with
  | ok f => exact absurd (announces_of_ofHeader control) none
  | error =>
    cases data : DataHeader.ofBytes bytes with
    | ok h => exact absurd (announces_of_ofBytes data) none
    | error fault =>
      refine ⟨fault, by rw [decode_of_no_control long control, data]; rfl, ?_⟩
      rintro needed got rfl
      have reaches := DataHeader.lt_of_ofBytes_eq_bufferTooSmall data
      simp only [controlSize, headerSize] at long reaches
      omega

private theorem greedyDecode_of_not_announces {bytes : Bytes} (none : ¬ Announces bytes) :
    greedyDecode bytes = greedyDecode (bytes.drop 1) := by
  by_cases short : bytes.length < controlSize
  · rw [greedyDecode, if_pos short, greedyDecode, if_pos]
    rw [List.length_drop]
    omega
  · obtain ⟨fault, refused, decided⟩ := decode_of_not_announces (Nat.le_of_not_lt short) none
    rw [greedyDecode, if_neg short, refused]
    split
    · next h => cases h
    · next needed got h =>
      cases h
      exact absurd rfl (decided needed got)
    · rfl

/-- Where a frame is announced, a frame is decoded, or more bytes are needed, or the next byte is
looked at. -/
theorem greedyDecode_of_announces {bytes : Bytes} (announced : Announces bytes) :
    greedyDecode bytes =
      match examine bytes with
      | none => []
      | some (.frame f) => f :: greedyDecode (bytes.drop f.size)
      | some (.flaw _) => greedyDecode (bytes.drop 1) := by
  rw [announced.examine_eq]
  by_cases short : bytes.length < controlSize
  · rw [greedyDecode, if_pos short, decode_of_short short]
  · rw [greedyDecode, if_neg short]
    simp only [length_image]
    split <;> simp_all

/-! ## Reading and decoding -/

private theorem not_announces_noise {b : UInt8} (h : b ≠ start1) (rest : Bytes) :
    ¬ Announces (b :: rest) := by
  rintro ⟨lead, behind, begins, -⟩
  exact h (List.cons.inj begins).1

private theorem not_announces_loneStart {b : UInt8} (h : b ≠ start2) (rest : Bytes) :
    ¬ Announces (start1 :: b :: rest) := by
  rintro ⟨lead, behind, begins, -⟩
  exact h (List.cons.inj (List.cons.inj begins).2).1

private theorem not_announces_third {b : UInt8}
    (h : b = start1 ∨ FrameType.ofCode? (b.toNat / 8) = none) (rest : Bytes) :
    ¬ Announces (start1 :: start2 :: b :: rest) := by
  rintro ⟨lead, behind, begins, noFiller, typed⟩
  obtain rfl := (List.cons.inj (List.cons.inj (List.cons.inj begins).2).2).1
  exact h.elim noFiller typed

/-- The frames found by reading a stream are the ones decoded greedily. -/
theorem frames_scan (bytes : Bytes) :
    (scan 0 bytes).1.filterMap Finding.frame? = greedyDecode bytes := by
  induction size : bytes.length using Nat.strongRecOn generalizing bytes with
  | _ n ih =>
    have onwards {finding : Finding} (found : examine bytes = some finding) :
        (scan 0 bytes).1.filterMap Finding.frame? =
          finding.frame?.toList ++ greedyDecode (bytes.drop finding.length) := by
      have inside := length_le_of_examine found
      have some := finding.length_pos
      have shorter : (bytes.drop finding.length).length < n := by
        rw [List.length_drop]
        omega
      rw [scan_of_some found, ← ih _ shorter (bytes.drop finding.length) rfl]
      cases finding <;> rfl
    have nothing (undecided : examine bytes = none) :
        (scan 0 bytes).1.filterMap Finding.frame? = [] := by
      rw [scan_of_none undecided]
      rfl
    cases place bytes with
    | empty => rw [nothing rfl, greedyDecode, if_pos (by decide)]
    | oneStart => rw [nothing rfl, greedyDecode, if_pos (by decide)]
    | bothStarts => rw [nothing rfl, greedyDecode, if_pos (by decide)]
    | noise h rest =>
      rw [onwards (examine_noise h rest),
        greedyDecode_of_not_announces (not_announces_noise h rest)]
      rfl
    | loneStart h rest =>
      rw [onwards (examine_loneStart h rest),
        greedyDecode_of_not_announces (not_announces_loneStart h rest)]
      rfl
    | idlePair rest =>
      -- Filler is passed over at once, where decoding passes over one byte at a time.
      rw [onwards (examine_idlePair rest),
        greedyDecode_of_not_announces (not_announces_third (.inl rfl) rest), List.drop_one,
        List.tail_cons, greedyDecode_of_not_announces (not_announces_noise (by decide) _)]
      rfl
    | badType h untyped rest =>
      rw [onwards (examine_badType h untyped rest),
        greedyDecode_of_not_announces (not_announces_third (.inr untyped) rest)]
      rfl
    | announced announced =>
      rw [greedyDecode_of_announces announced]
      cases found : examine bytes with
      | none => exact nothing found
      | some finding =>
        rw [onwards found]
        cases finding with
        | frame f => rfl
        | flaw flaw =>
          have one := announced.eq_badChecksum found
          rw [one]
          rfl

/-! ## The framer -/

namespace Framer

/-- The framer after several chunks of a stream, and what it noticed in them. -/
def receiveChunks : Framer → List Bytes → Framer × List Notice
  | f, [] => (f, [])
  | f, chunk :: rest =>
    let (f, first) := f.receive chunk
    let (f, others) := f.receiveChunks rest
    (f, first ++ others)

private theorem frames_receiveChunks {f : Framer} (settled : f.Settled) (chunks : List Bytes) :
    (f.receiveChunks chunks).2.filterMap Notice.frame? =
      greedyDecode (f.buffer ++ chunks.flatten) := by
  induction chunks generalizing f with
  | nil =>
    rw [List.flatten_nil, List.append_nil, ← frames_scan, scan_of_none settled.undecided]
    rfl
  | cons chunk rest ih =>
    have whole := scan_append (f.buffer ++ chunk) rest.flatten
    have read := reads_receive settled chunk
    rw [receiveChunks, List.filterMap_append, frames_receive settled, ih read.settled, read.buffer,
      List.flatten_cons, ← List.append_assoc, ← frames_scan, ← frames_scan, whole,
      List.filterMap_append]

/-- Whatever its storage and however a stream is cut into chunks, a framer that is new or was just
reset gives notice of the frames that are decoded greedily from the stream, in their order. -/
theorem receiveChunks_eq_greedyDecode (capacity : Nat) (used : Framer) (chunks : List Bytes) :
    ((ofCapacity capacity).receiveChunks chunks).2.filterMap Notice.frame? =
        greedyDecode chunks.flatten ∧
      (used.reset.receiveChunks chunks).2.filterMap Notice.frame? =
        greedyDecode chunks.flatten := by
  have new := frames_receiveChunks (settled_ofCapacity capacity) chunks
  have reset := frames_receiveChunks (settled_reset used) chunks
  rw [buffer_reset] at reset
  exact ⟨new, reset⟩

end Framer

end FramedLink.Framing
