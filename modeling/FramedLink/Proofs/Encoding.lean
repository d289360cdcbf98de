import FramedLink.Proofs.Decoding

/-! # Decoding is the inverse of encoding

A string of bytes is read as a frame exactly if the image of that frame, as it is encoded, stands at
the front of it. So no two images stand for one frame, and no bit of an image is passed over: what
was read is encoded as the bytes that were read.
-/

namespace FramedLink

open FramedLink.Frame

/-! ## Encoding a frame -/

/-- The image of a frame, if its fields fit. -/
def Frame.encode : Frame → Except Fault Bytes
  | data f => f.encode
  | control f => ControlFrame.encode (.control f.control) f.id

theorem DataFrame.encode_eq_ok_iff {f : DataFrame} {image : Bytes} :
    f.encode = .ok image ↔ f.header.Valid ∧ image = f.image := by
  unfold encode
  cases made : DataHeader.make f.id f.metadata f.payload.length with
  | ok header =>
    obtain ⟨rfl, valid⟩ := DataHeader.make_eq_ok_iff.mp made
    have fits : f.header.Valid := valid
    simp [bind, Except.bind, pure, Except.pure, fits, eq_comm]
  | error fault =>
    have unfit : ¬ f.header.Valid := by
      intro fits
      rw [DataHeader.make_eq_ok_iff.mpr ⟨rfl, fits⟩] at made
      cases made
    simp [bind, Except.bind, unfit]

theorem ControlFrame.encode_eq_ok_iff {f : ControlFrame} {image : Bytes} :
    encode (.control f.control) f.id = .ok image ↔ f.id ≤ maxId ∧ image = f.image := by
  unfold encode make
  by_cases large : maxId < f.id
  · simp [bind, Except.bind, large, Nat.not_le_of_lt large]
  · simp [bind, Except.bind, pure, Except.pure, large, Nat.le_of_not_lt large, eq_comm]

namespace Frame

theorem encode_eq_ok_iff {f : Frame} {image : Bytes} :
    f.encode = .ok image ↔ f.Valid ∧ image = f.image := by
  cases f with
  | data f => exact DataFrame.encode_eq_ok_iff
  | control f => exact ControlFrame.encode_eq_ok_iff

end Frame

/-! ## What was read of a frame -/

/-- The lead byte holds the type code and the highest bits of the id, and nothing else. -/
theorem FrameType.leadByte_of_code {type : FrameType} {lead low : UInt8}
    (typed : FrameType.ofCode? (lead.toNat / 8) = some type) :
    type.leadByte (lead.toNat % 8 * 256 + low.toNat) = lead := by
  have code := FrameType.ofCode?_eq_some_iff.mp typed
  have small := low.toNat_lt
  have whole := lead.toNat_lt
  apply UInt8.toNat_inj.mp
  simp only [leadByte, UInt8.toNat_ofNat', ← code]
  omega

namespace ControlFrame

private theorem header_of_ofHeader {bytes : Bytes} {f : ControlFrame}
    (read : ofHeader bytes = .ok f) : f.id ≤ maxId ∧ bytes.take 4 = f.header := by
  unfold ofHeader at read
  split at read
  · next b0 b1 b2 b3 rest =>
    simp only [bind, Except.bind] at read
    split at read
    · cases read
    · next begun =>
      obtain ⟨rfl, rfl⟩ := checkStart_eq_ok_iff.mp begun
      split at read
      · next control typed =>
        cases read
        have small := b3.toNat_lt
        have low : UInt8.ofNat (b2.toNat % 8 * 256 + b3.toNat) = b3 := by
          apply UInt8.toNat_inj.mp
          simp only [UInt8.toNat_ofNat']
          omega
        constructor
        · simp only [maxId]
          omega
        · simp only [header, FrameType.leadByte_of_code typed, low]
          rfl
      · cases read
  · cases read

end ControlFrame

namespace DataHeader

theorem toBytes_of_ofBytes {bytes : Bytes} {h : DataHeader} (read : ofBytes bytes = .ok h) :
    h.Valid ∧ bytes.take headerSize = h.toBytes := by
  unfold ofBytes at read
  split at read
  · next b0 b1 b2 b3 b4 b5 b6 b7 rest =>
    simp only [bind, Except.bind] at read
    split at read
    · cases read
    · next begun =>
      obtain ⟨rfl, rfl⟩ := checkStart_eq_ok_iff.mp begun
      split at read
      · next typed =>
        cases read
        have id := b4.toNat_lt
        have length := b3.toNat_lt
        have metadata := Bytes.ofNatLE_toNatLE [b5, b6, b7]
        have low : UInt8.ofNat (b2.toNat % 8 * 256 + b4.toNat) = b4 := by
          apply UInt8.toNat_inj.mp
          simp only [UInt8.toNat_ofNat']
          omega
        constructor
        · have h5 := b5.toNat_lt
          have h6 := b6.toNat_lt
          have h7 := b7.toNat_lt
          simp only [Valid, maxId, maxMetadata, maxPayload, Bytes.toNatLE]
          omega
        · simp only [List.length_cons, List.length_nil] at metadata
          simp only [toBytes, FrameType.leadByte_of_code typed, low, Nat.add_sub_cancel,
            UInt8.ofNat_toNat, metadata]
          rfl
      · cases read
  · cases read

end DataHeader

namespace Frame

theorem checkSum_eq_ok_iff_trailer {covered trailer : Bytes}
    (four : trailer.length = footerSize) :
    checkSum covered trailer = .ok () ↔ trailer = Checksum.trailer covered := by
  constructor
  · intro same
    have bound := Bytes.ofNatLE_toNatLE trailer
    rw [four] at bound
    have small : Bytes.toNatLE trailer < UInt32.size := by
      rw [← bound, Bytes.toNatLE_ofNatLE]
      exact Nat.mod_lt _ (by decide)
    rw [Checksum.trailer, checkSum_eq_ok_iff.mp same, UInt32.toNat_ofNat_of_lt' small]
    exact bound.symm
  · rintro rfl
    exact checkSum_trailer covered

private theorem ReadsControl.image_eq {bytes : Bytes} {f : ControlFrame}
    (read : ReadsControl bytes f) : f.id ≤ maxId ∧ bytes.take controlSize = f.image := by
  obtain ⟨long, header, sum⟩ := read
  obtain ⟨fits, front⟩ := ControlFrame.header_of_ofHeader header
  have four : ((bytes.drop 4).take 4).length = footerSize := by
    simp only [List.length_take, List.length_drop, controlSize, footerSize] at long ⊢
    omega
  have covered : (bytes.drop 2).take 2 = f.header.drop 2 := by
    rw [← front, List.drop_take]
  rw [checkSum_eq_ok_iff_trailer four, covered] at sum
  refine ⟨fits, ?_⟩
  calc bytes.take controlSize
      = bytes.take (4 + 4) := rfl
    _ = bytes.take 4 ++ (bytes.drop 4).take 4 := List.take_add
    _ = f.image := by rw [front, sum, ControlFrame.image]

private theorem ReadsData.image_eq {bytes : Bytes} {h : DataHeader} (read : ReadsData bytes h) :
    let f : DataFrame := ⟨h.id, h.metadata, (bytes.drop headerSize).take h.length⟩
    f.header.Valid ∧ bytes.take (Frame.data f).size = f.image := by
  intro f
  obtain ⟨long, header, sum⟩ := read
  obtain ⟨fits, front⟩ := DataHeader.toBytes_of_ofBytes header
  simp only [DataHeader.frameSize, overhead] at long
  have length : f.payload.length = h.length := by
    simp only [f, List.length_take, List.length_drop]
    omega
  have same : f.header = h := by
    simp only [DataFrame.header, length, f]
  have four : ((bytes.drop (headerSize + h.length)).take footerSize).length = footerSize := by
    simp only [List.length_take, List.length_drop]
    omega
  have headed : bytes.take (headerSize + h.length) = f.header.toBytes ++ f.payload := by
    rw [same, ← front]
    exact List.take_add
  have covered : (bytes.drop 2).take (headerSize - 2 + h.length) =
      (f.header.toBytes ++ f.payload).drop 2 := by
    rw [← headed, List.drop_take]
    congr 1
    simp only [headerSize]
    omega
  rw [checkSum_eq_ok_iff_trailer four, covered] at sum
  refine ⟨same ▸ fits, ?_⟩
  have size : (Frame.data f).size = headerSize + h.length + footerSize := by
    simp only [Frame.size, length, overhead]
    omega
  calc bytes.take (Frame.data f).size
      = bytes.take (headerSize + h.length) ++
          (bytes.drop (headerSize + h.length)).take footerSize := by rw [size, List.take_add]
    _ = f.image := by rw [headed, sum, DataFrame.image]

/-- What is read is a frame whose fields fit, and its image is what was read. -/
theorem image_of_decode {bytes : Bytes} {f : Frame} (read : decode bytes = .ok f) :
    f.Valid ∧ bytes.take f.size = f.image := by
  obtain ⟨g, rfl, reads⟩ | ⟨h, rfl, reads⟩ := reads_of_decode read
  · exact reads.image_eq
  · exact reads.image_eq

/-- A string of bytes is read as a frame exactly if the fields of the frame fit and its encoding
stands at the front of the bytes. From its encoding alone every frame is read back, and what was
read is encoded as the bytes that were read. -/
theorem decode_eq_ok_iff (bytes : Bytes) (f : Frame) :
    (decode bytes = .ok f ↔ f.Valid ∧ ∃ image, f.encode = .ok image ∧ image <+: bytes) ∧
      (∀ image, f.encode = .ok image → decode image = .ok f) ∧
      (decode bytes = .ok f ↔ f.encode = .ok (bytes.take f.size)) := by
  refine ⟨⟨?_, ?_⟩, ?_, ?_, ?_⟩
  · intro read
    obtain ⟨valid, front⟩ := image_of_decode read
    exact ⟨valid, f.image, encode_eq_ok_iff.mpr ⟨valid, rfl⟩, front ▸ List.take_prefix _ _⟩
  · rintro ⟨valid, image, encoded, rest, rfl⟩
    obtain ⟨-, rfl⟩ := encode_eq_ok_iff.mp encoded
    exact decode_image valid rest
  · intro image encoded
    obtain ⟨valid, rfl⟩ := encode_eq_ok_iff.mp encoded
    have read := decode_image valid []
    rwa [List.append_nil] at read
  · intro read
    obtain ⟨valid, front⟩ := image_of_decode read
    exact encode_eq_ok_iff.mpr ⟨valid, front⟩
  · intro encoded
    obtain ⟨valid, front⟩ := encode_eq_ok_iff.mp encoded
    rw [← List.take_append_drop f.size bytes, front]
    exact decode_image valid _

end Frame

end FramedLink
