import FramedLink.Framing.Framer
import FramedLink.Proofs.Decoding

/-! # Reading a stream from the left

At each place of a stream of bytes it is decided whether a frame begins there, whether none does,
or whether more bytes are needed to tell. Whatever is no frame is passed over, one byte at a time
but for filler in front of a frame. Reading a stream piece by piece is reading it at once:
`scan_append`.
-/

namespace FramedLink.Framing

open FramedLink.Frame

/-- Why no frame begins at a place. -/
inductive Flaw where
  /-- The byte is not the first start byte. -/
  | noise
  /-- The first start byte stands without the second one. -/
  | loneStart
  /-- Both start bytes are filler in front of another first start byte. -/
  | idlePair
  /-- No frame has the type code behind the start bytes. -/
  | badType
  /-- The checksum is not that of the frame announced. -/
  | badChecksum
  deriving DecidableEq, Repr

def Flaw.length : Flaw → Nat
  | idlePair => 2
  | _ => 1

inductive Finding where
  | frame (frame : Frame)
  | flaw (flaw : Flaw)
  deriving DecidableEq, Repr

namespace Finding

def length : Finding → Nat
  | frame f => f.size
  | flaw f => f.length

def frame? : Finding → Option Frame
  | frame f => some f
  | flaw _ => none

theorem length_pos (finding : Finding) : 0 < finding.length := by
  rcases finding with (f | f) | flaw
  · simp only [length, Frame.size, overhead, headerSize, footerSize]
    omega
  · exact Nat.succ_pos _
  · cases flaw <;> exact Nat.succ_pos _

end Finding

/-- What the bytes from a place on say about it; `none` while they are too few to tell. -/
def examine (bytes : Bytes) : Option Finding :=
  match bytes with
  | [] => none
  | b0 :: behind0 =>
    if b0 ≠ start1 then some (.flaw .noise)
    else match behind0 with
    | [] => none
    | b1 :: behind1 =>
      if b1 ≠ start2 then some (.flaw .loneStart)
      else match behind1 with
      | [] => none
      | b2 :: _ =>
        if b2 = start1 then some (.flaw .idlePair)
        else if FrameType.ofCode? (b2.toNat / 8) = none then some (.flaw .badType)
        else match decode bytes with
        | .ok f => some (.frame f)
        | .error (.bufferTooSmall _ _) => none
        | .error _ => some (.flaw .badChecksum)

/-- The findings in `bytes`, the first `passed` bytes of which belong to an earlier one, and the
bytes from the place on that needs more of them. -/
def scan : Nat → Bytes → List Finding × Bytes
  | _, [] => ([], [])
  | passed + 1, _ :: rest => scan passed rest
  | 0, b :: rest =>
    match examine (b :: rest) with
    | none => ([], b :: rest)
    | some finding =>
      let (findings, left) := scan (finding.length - 1) rest
      (finding :: findings, left)

/-! ## One place -/

/-- The string of bytes begins as a frame of some type does. -/
structure Announces (bytes : Bytes) : Prop where
  begins : ∃ lead behind, bytes = start1 :: start2 :: lead :: behind ∧ lead ≠ start1 ∧
    FrameType.ofCode? (lead.toNat / 8) ≠ none

theorem Announces.append {bytes : Bytes} (h : Announces bytes) (rest : Bytes) :
    Announces (bytes ++ rest) := by
  obtain ⟨lead, behind, rfl, noFiller, typed⟩ := h
  exact ⟨lead, behind ++ rest, rfl, noFiller, typed⟩

/-- The ways in which a string of bytes can begin. -/
inductive Place : Bytes → Prop where
  | empty : Place []
  | noise {b : UInt8} (h : b ≠ start1) (rest : Bytes) : Place (b :: rest)
  | oneStart : Place [start1]
  | loneStart {b : UInt8} (h : b ≠ start2) (rest : Bytes) : Place (start1 :: b :: rest)
  | bothStarts : Place [start1, start2]
  | idlePair (rest : Bytes) : Place (start1 :: start2 :: start1 :: rest)
  | badType {b : UInt8} (h : b ≠ start1) (untyped : FrameType.ofCode? (b.toNat / 8) = none)
      (rest : Bytes) : Place (start1 :: start2 :: b :: rest)
  | announced {bytes : Bytes} (h : Announces bytes) : Place bytes

theorem place (bytes : Bytes) : Place bytes := by
  rcases bytes with _ | ⟨b0, behind⟩
  · exact .empty
  by_cases h0 : b0 = start1
  case neg => exact .noise h0 behind
  subst h0
  rcases behind with _ | ⟨b1, behind⟩
  · exact .oneStart
  by_cases h1 : b1 = start2
  case neg => exact .loneStart h1 behind
  subst h1
  rcases behind with _ | ⟨b2, behind⟩
  · exact .bothStarts
  by_cases h2 : b2 = start1
  · subst h2
    exact .idlePair behind
  by_cases h3 : FrameType.ofCode? (b2.toNat / 8) = none
  · exact .badType h2 h3 behind
  · exact .announced ⟨b2, behind, rfl, h2, h3⟩

@[simp] theorem examine_nil : examine [] = none := rfl

@[simp] theorem examine_oneStart : examine [start1] = none := rfl

@[simp] theorem examine_bothStarts : examine [start1, start2] = none := rfl

@[simp] theorem examine_idlePair (rest : Bytes) :
    examine (start1 :: start2 :: start1 :: rest) = some (.flaw .idlePair) := by
  simp [examine]

theorem examine_noise {b : UInt8} (h : b ≠ start1) (rest : Bytes) :
    examine (b :: rest) = some (.flaw .noise) := by
  simp [examine, h]

theorem examine_loneStart {b : UInt8} (h : b ≠ start2) (rest : Bytes) :
    examine (start1 :: b :: rest) = some (.flaw .loneStart) := by
  simp [examine, h]

theorem examine_badType {b : UInt8} (h : b ≠ start1)
    (untyped : FrameType.ofCode? (b.toNat / 8) = none) (rest : Bytes) :
    examine (start1 :: start2 :: b :: rest) = some (.flaw .badType) := by
  simp [examine, h, untyped]

theorem Announces.examine_eq {bytes : Bytes} (h : Announces bytes) :
    examine bytes =
      match decode bytes with
      | .ok f => some (.frame f)
      | .error (.bufferTooSmall _ _) => none
      | .error _ => some (.flaw .badChecksum) := by
  obtain ⟨lead, behind, rfl, noFiller, typed⟩ := h
  simp only [examine, ne_eq, not_true_eq_false, if_false, if_neg noFiller, if_neg typed]

theorem Announces.examine_eq_none_iff {bytes : Bytes} (h : Announces bytes) :
    examine bytes = none ↔ TooShort bytes := by
  rw [h.examine_eq, TooShort]
  split <;> simp_all

theorem Announces.examine_eq_frame_iff {bytes : Bytes} (h : Announces bytes) {f : Frame} :
    examine bytes = some (.frame f) ↔ decode bytes = .ok f := by
  rw [h.examine_eq]
  split <;> simp_all

/-- Where a frame is announced, it can be spoilt by its checksum only. -/
theorem Announces.eq_badChecksum {bytes : Bytes} (h : Announces bytes) {flaw : Flaw}
    (found : examine bytes = some (.flaw flaw)) : flaw = .badChecksum := by
  rw [h.examine_eq] at found
  split at found <;> simp_all

/-- What has been decided about a place stays as it is when more bytes come. -/
theorem examine_append {bytes : Bytes} {finding : Finding} (found : examine bytes = some finding)
    (rest : Bytes) : examine (bytes ++ rest) = some finding := by
  cases place bytes with
  | empty | oneStart | bothStarts => cases found
  | noise h => rwa [List.cons_append, examine_noise h, ← examine_noise h]
  | loneStart h =>
    rw [examine_loneStart h] at found
    rw [List.cons_append, List.cons_append, examine_loneStart h, found]
  | idlePair => simpa using found
  | badType h untyped =>
    rw [examine_badType h untyped] at found
    rw [List.cons_append, List.cons_append, List.cons_append, examine_badType h untyped, found]
  | announced h =>
    have enough : ¬ TooShort bytes := by
      rw [← h.examine_eq_none_iff, found]
      simp
    rw [(h.append rest).examine_eq, decode_append enough, ← h.examine_eq, found]

theorem length_le_of_examine {bytes : Bytes} {finding : Finding}
    (found : examine bytes = some finding) : finding.length ≤ bytes.length := by
  cases place bytes with
  | empty | oneStart | bothStarts => cases found
  | noise h =>
    rw [examine_noise h] at found
    cases found
    simp [Finding.length, Flaw.length]
  | loneStart h =>
    rw [examine_loneStart h] at found
    cases found
    simp [Finding.length, Flaw.length]
  | idlePair =>
    rw [examine_idlePair] at found
    cases found
    simp [Finding.length, Flaw.length]
  | badType h untyped =>
    rw [examine_badType h untyped] at found
    cases found
    simp [Finding.length, Flaw.length]
  | announced h =>
    rcases finding with f | flaw
    · exact size_le_of_decode (h.examine_eq_frame_iff.mp found)
    · obtain ⟨lead, behind, rfl, _⟩ := h
      cases flaw <;> simp [Finding.length, Flaw.length]

theorem ne_start1_of_typed {lead : UInt8} {type : FrameType}
    (typed : FrameType.ofCode? (lead.toNat / 8) = some type) : lead ≠ start1 := by
  rintro rfl
  cases typed

theorem announces_of_ofHeader {bytes : Bytes} {f : ControlFrame}
    (read : ControlFrame.ofHeader bytes = .ok f) : Announces bytes := by
  unfold ControlFrame.ofHeader at read
  split at read
  · next b0 b1 b2 b3 behind =>
    simp only [bind, Except.bind] at read
    split at read
    · cases read
    · next begun =>
      obtain ⟨rfl, rfl⟩ := checkStart_eq_ok_iff.mp begun
      split at read
      · next typed =>
        exact ⟨b2, b3 :: behind, rfl, ne_start1_of_typed typed, by simp [typed]⟩
      · cases read
  · cases read

theorem announces_of_ofBytes {bytes : Bytes} {h : DataHeader}
    (read : DataHeader.ofBytes bytes = .ok h) : Announces bytes := by
  unfold DataHeader.ofBytes at read
  split at read
  · next b0 b1 b2 b3 b4 b5 b6 b7 behind =>
    simp only [bind, Except.bind] at read
    split at read
    · cases read
    · next begun =>
      obtain ⟨rfl, rfl⟩ := checkStart_eq_ok_iff.mp begun
      split at read
      · next typed =>
        exact ⟨b2, b3 :: b4 :: b5 :: b6 :: b7 :: behind, rfl, ne_start1_of_typed typed,
          by simp [typed]⟩
      · cases read
  · cases read

theorem examine_eq_frame_iff {bytes : Bytes} {f : Frame} :
    examine bytes = some (.frame f) ↔ decode bytes = .ok f := by
  constructor
  · intro found
    cases place bytes with
    | empty | oneStart | bothStarts => cases found
    | noise h => simp [examine_noise h] at found
    | loneStart h => simp [examine_loneStart h] at found
    | idlePair => simp at found
    | badType h untyped => simp [examine_badType h untyped] at found
    | announced h => exact h.examine_eq_frame_iff.mp found
  · intro read
    have announced : Announces bytes := by
      obtain ⟨g, -, reads⟩ | ⟨h, -, reads⟩ := reads_of_decode read
      · exact announces_of_ofHeader reads.header
      · exact announces_of_ofBytes reads.header
    exact announced.examine_eq_frame_iff.mpr read

theorem examine_image {f : Frame} (valid : f.Valid) (rest : Bytes) :
    examine (f.image ++ rest) = some (.frame f) :=
  examine_eq_frame_iff.mpr (decode_image valid rest)

private theorem examine_take_image {f : Frame} (valid : f.Valid) {n : Nat} (inside : n < f.size) :
    examine (f.image.take n) = none := by
  cases found : examine (f.image.take n) with
  | none => rfl
  | some finding =>
    have whole := examine_append found (f.image.drop n)
    rw [List.take_append_drop] at whole
    have same := examine_image valid []
    rw [List.append_nil, whole] at same
    cases same
    have reaches := length_le_of_examine found
    simp only [Finding.length, List.length_take] at reaches
    omega

/-! ## The whole stream -/

private theorem scan_passed (passed : Nat) (bytes : Bytes) :
    scan passed bytes = scan 0 (bytes.drop passed) := by
  induction passed generalizing bytes with
  | zero => rfl
  | succ passed ih =>
    cases bytes with
    | nil => simp [scan]
    | cons b rest => simp [scan, ih]

theorem scan_of_none {bytes : Bytes} (undecided : examine bytes = none) :
    scan 0 bytes = ([], bytes) := by
  cases bytes with
  | nil => rfl
  | cons b rest => simp [scan, undecided]

theorem scan_of_some {bytes : Bytes} {finding : Finding} (found : examine bytes = some finding) :
    scan 0 bytes =
      let (findings, left) := scan 0 (bytes.drop finding.length)
      (finding :: findings, left) := by
  cases bytes with
  | nil => cases found
  | cons b rest =>
    obtain ⟨n, hn⟩ := Nat.exists_eq_succ_of_ne_zero (Nat.ne_of_gt finding.length_pos)
    simp only [scan, found, scan_passed (finding.length - 1) rest]
    rw [hn, Nat.succ_sub_one, List.drop_succ_cons]

/-- At an image, its frame is found, and reading goes on behind it. -/
theorem scan_image_append {f : Frame} (valid : f.Valid) (rest : Bytes) :
    scan 0 (f.image ++ rest) = (.frame f :: (scan 0 rest).1, (scan 0 rest).2) := by
  rw [scan_of_some (examine_image valid rest), Finding.length, ← length_image, List.drop_left]

/-- Of a first part of an image, nothing is found and all is kept. -/
theorem scan_take_image {f : Frame} (valid : f.Valid) {n : Nat} (inside : n < f.image.length) :
    scan 0 (f.image.take n) = ([], f.image.take n) :=
  scan_of_none (examine_take_image valid (length_image f ▸ inside))

/-- To read a stream piece by piece is to read it at once. -/
theorem scan_append (front back : Bytes) :
    scan 0 (front ++ back) =
      let (first, left) := scan 0 front
      let (second, left) := scan 0 (left ++ back)
      (first ++ second, left) := by
  induction h : front.length using Nat.strongRecOn generalizing front with
  | _ n ih =>
    -- What is found in the first piece alone is found in both; what is not found is left over.
    cases found : examine front with
    | none => simp [scan_of_none found]
    | some finding =>
      have inside := length_le_of_examine found
      have some := finding.length_pos
      rw [scan_of_some found, scan_of_some (examine_append found back),
        List.drop_append_of_le_length inside,
        ih _ (by rw [List.length_drop]; omega) (front.drop finding.length) rfl]
      rfl

end FramedLink.Framing
