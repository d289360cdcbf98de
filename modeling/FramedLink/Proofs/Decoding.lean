import Mathlib.Algebra.Group.Nat.Defs
import Mathlib.Tactic.ByContra
import FramedLink.Frame.Image

/-! # Decoding images

The frame at the front of a string of bytes is decided by a first part of it: what comes behind
that part changes nothing. From the image of a frame whose fields fit, the frame is read back.
-/

namespace FramedLink

open FramedLink.Frame

/-! ## Numbers -/

namespace Bytes

theorem toNatLE_ofNatLE (width n : Nat) : toNatLE (ofNatLE width n) = n % 256 ^ width := by
  induction width generalizing n with
  | zero => simp [ofNatLE, toNatLE, Nat.mod_one]
  | succ width ih => simp [ofNatLE, toNatLE, ih, Nat.pow_succ', Nat.mod_mul]

theorem toNatLE_ofNatLE_of_lt {width n : Nat} (h : n < 256 ^ width) :
    toNatLE (ofNatLE width n) = n := by
  rw [toNatLE_ofNatLE, Nat.mod_eq_of_lt h]

end Bytes

/-! ## Headers -/

theorem checkStart_start : checkStart start1 start2 = .ok () := rfl

theorem checkStart_eq_ok_iff {b0 b1 : UInt8} :
    checkStart b0 b1 = .ok () ↔ b0 = start1 ∧ b1 = start2 := by
  unfold checkStart
  split <;> simp_all

private theorem checkStart_eq_error {b0 b1 : UInt8} {fault : Fault}
    (h : checkStart b0 b1 = .error fault) : ∃ found, fault = .invalidStart found := by
  unfold checkStart at h
  split at h <;> cases h
  exact ⟨_, rfl⟩

theorem FrameType.toNat_leadByte (type : FrameType) {id : Nat} (hid : id ≤ maxId) :
    (type.leadByte id).toNat = type.code * 8 + id / 256 := by
  have small := type.code_lt
  simp only [maxId] at hid
  simp only [leadByte, UInt8.toNat_ofNat']
  omega

namespace ControlFrame

theorem ofHeader_append {bytes : Bytes} (enough : 4 ≤ bytes.length) (rest : Bytes) :
    ofHeader (bytes ++ rest) = ofHeader bytes := by
  match bytes, enough with
  | b0 :: b1 :: b2 :: b3 :: more, _ => rfl

theorem ofHeader_take {bytes : Bytes} (enough : controlSize ≤ bytes.length) :
    ofHeader (bytes.take controlSize) = ofHeader bytes := by
  conv_rhs => rw [← List.take_append_drop controlSize bytes]
  refine (ofHeader_append ?_ _).symm
  simp only [List.length_take, controlSize] at enough ⊢
  omega

theorem ofHeader_header {f : ControlFrame} (hid : f.id ≤ maxId) (rest : Bytes) :
    ofHeader (f.header ++ rest) = .ok f := by
  obtain ⟨control, id⟩ := f
  simp only [maxId] at hid
  have small := (FrameType.control control).code_lt
  have lead := (FrameType.control control).toNat_leadByte hid
  have code : ((FrameType.control control).leadByte id).toNat / 8 =
      (FrameType.control control).code := by omega
  have high : ((FrameType.control control).leadByte id).toNat % 8 = id / 256 := by omega
  simp only [header, ofHeader, List.cons_append, checkStart_start, code, FrameType.ofCode?_code,
    high, UInt8.toNat_ofNat', bind, Except.bind]
  congr 2
  omega

end ControlFrame

namespace DataHeader

theorem ofBytes_append {bytes : Bytes} (enough : headerSize ≤ bytes.length) (rest : Bytes) :
    ofBytes (bytes ++ rest) = ofBytes bytes := by
  match bytes, enough with
  | b0 :: b1 :: b2 :: b3 :: b4 :: b5 :: b6 :: b7 :: more, _ => rfl

theorem ofBytes_take {bytes : Bytes} (enough : headerSize ≤ bytes.length) :
    ofBytes (bytes.take headerSize) = ofBytes bytes := by
  conv_rhs => rw [← List.take_append_drop headerSize bytes]
  refine (ofBytes_append ?_ _).symm
  simp only [List.length_take]
  omega

theorem length_of_ofBytes {bytes : Bytes} {h : DataHeader} (read : ofBytes bytes = .ok h) :
    headerSize ≤ bytes.length := by
  unfold ofBytes at read
  split at read
  · simp only [List.length_cons, headerSize]
    omega
  · cases read

theorem lt_of_ofBytes_eq_bufferTooSmall {bytes : Bytes} {needed got : Nat}
    (read : ofBytes bytes = .error (.bufferTooSmall needed got)) : bytes.length < headerSize := by
  unfold ofBytes at read
  split at read
  · simp only [bind, Except.bind] at read
    split at read
    · next refused =>
      obtain ⟨found, rfl⟩ := checkStart_eq_error refused
      cases read
    · split at read <;> cases read
  · next short =>
    by_contra long
    match bytes, Nat.le_of_not_lt long with
    | b0 :: b1 :: b2 :: b3 :: b4 :: b5 :: b6 :: b7 :: more, _ => exact short _ _ _ _ _ _ _ _ _ rfl

theorem frameSize_pos (h : DataHeader) : headerSize < h.frameSize := by
  simp only [frameSize, overhead, headerSize, footerSize]
  omega

theorem ofBytes_toBytes {h : DataHeader} (valid : h.Valid) (rest : Bytes) :
    ofBytes (h.toBytes ++ rest) = .ok h := by
  obtain ⟨id, metadata, length⟩ := h
  obtain ⟨hid, hmetadata, some, hlength⟩ := valid
  have lead := FrameType.data.toNat_leadByte hid
  simp only [maxId, maxMetadata, maxPayload, FrameType.code] at *
  have code : (FrameType.data.leadByte id).toNat / 8 = FrameType.data.code := by
    simp only [FrameType.code]
    omega
  have high : (FrameType.data.leadByte id).toNat % 8 = id / 256 := by omega
  have whole : Bytes.toNatLE (Bytes.ofNatLE 3 metadata) = metadata :=
    Bytes.toNatLE_ofNatLE_of_lt (by omega)
  simp only [Bytes.ofNatLE] at whole
  simp only [toBytes, ofBytes, Bytes.ofNatLE, List.cons_append, List.nil_append, checkStart_start,
    code, FrameType.ofCode?_code, high, UInt8.toNat_ofNat', whole, if_true, bind, Except.bind]
  congr 2 <;> omega

theorem ofHeader_eq_error {bytes : Bytes} {h : DataHeader} (read : ofBytes bytes = .ok h) :
    ∃ fault, ControlFrame.ofHeader bytes = .error fault := by
  match bytes with
  | b0 :: b1 :: b2 :: b3 :: b4 :: b5 :: b6 :: b7 :: more =>
    simp only [ofBytes, bind, Except.bind] at read
    simp only [ControlFrame.ofHeader, bind, Except.bind]
    split at read
    · cases read
    · next begun =>
      split at read
      · next typed =>
        rw [typed]
        exact ⟨_, rfl⟩
      · cases read

end DataHeader

namespace Frame

/-! ## Reading a frame -/

theorem checkSum_eq_ok_iff {covered trailer : Bytes} :
    checkSum covered trailer = .ok () ↔
      Checksum.crc32 0 covered = UInt32.ofNat (Bytes.toNatLE trailer) := by
  unfold checkSum
  simp only
  split <;> simp_all

theorem checkSum_trailer (covered : Bytes) :
    checkSum covered (Checksum.trailer covered) = .ok () := by
  rw [checkSum_eq_ok_iff, Checksum.trailer, Bytes.toNatLE_ofNatLE]
  have small := (Checksum.crc32 0 covered).toNat_lt
  rw [Nat.mod_eq_of_lt (by omega), UInt32.ofNat_toNat]

theorem checkSum_error {covered trailer : Bytes} {fault : Fault}
    (h : checkSum covered trailer = .error fault) :
    ∃ computed found, fault = .checksumMismatch computed found := by
  unfold checkSum at h
  simp only at h
  split at h <;> cases h
  exact ⟨_, _, rfl⟩

theorem checkLength_of_le {needed : Nat} {bytes : Bytes} (h : needed ≤ bytes.length) :
    checkLength needed bytes = .ok () := checkLength_eq_ok_iff.mpr h

theorem checkLength_of_lt {needed : Nat} {bytes : Bytes} (h : bytes.length < needed) :
    checkLength needed bytes = .error (.bufferTooSmall needed bytes.length) := by
  rw [checkLength, if_pos (by simp only [List.length_take]; omega)]

theorem decode_of_short {bytes : Bytes} (h : bytes.length < controlSize) :
    decode bytes = .error (.bufferTooSmall controlSize bytes.length) := by
  simp only [decode, checkLength_of_lt h, bind, Except.bind]

theorem decode_of_control {bytes : Bytes} {f : ControlFrame} (h : controlSize ≤ bytes.length)
    (read : ControlFrame.ofHeader bytes = .ok f) :
    decode bytes =
      (checkSum ((bytes.drop 2).take 2) ((bytes.drop 4).take 4)).map fun _ => control f := by
  simp only [decode, checkLength_of_le h, read, bind, Except.bind]
  cases checkSum ((bytes.drop 2).take 2) ((bytes.drop 4).take 4) <;> rfl

theorem decode_of_no_control {bytes : Bytes} {fault : Fault} (h : controlSize ≤ bytes.length)
    (read : ControlFrame.ofHeader bytes = .error fault) :
    decode bytes = (DataHeader.ofBytes bytes).bind fun header =>
      (checkLength header.frameSize bytes).bind fun _ =>
      (checkSum ((bytes.drop 2).take (headerSize - 2 + header.length))
        ((bytes.drop (headerSize + header.length)).take footerSize)).map fun _ =>
      data ⟨header.id, header.metadata, (bytes.drop headerSize).take header.length⟩ := by
  simp only [decode, checkLength_of_le h, read, bind, Except.bind]
  cases DataHeader.ofBytes bytes with
  | error => rfl
  | ok header =>
    simp only
    cases checkLength header.frameSize bytes with
    | error => rfl
    | ok =>
      simp only
      cases checkSum ((bytes.drop 2).take (headerSize - 2 + header.length))
        ((bytes.drop (headerSize + header.length)).take footerSize) <;> rfl

private theorem take_drop_append {bytes : Bytes} {m n : Nat} (h : m + n ≤ bytes.length)
    (rest : Bytes) : ((bytes ++ rest).drop m).take n = (bytes.drop m).take n := by
  rw [List.drop_append_of_le_length (by omega), List.take_append_of_le_length]
  rw [List.length_drop]
  omega

/-- The bytes are too few to tell what frame they begin with. -/
def TooShort (bytes : Bytes) : Prop :=
  ∃ needed got, decode bytes = .error (.bufferTooSmall needed got)

/-- Once there are enough bytes to tell, further ones change nothing. -/
theorem decode_append {bytes : Bytes} (enough : ¬ TooShort bytes) (rest : Bytes) :
    decode (bytes ++ rest) = decode bytes := by
  have long : controlSize ≤ bytes.length := by
    by_contra short
    exact enough ⟨_, _, decode_of_short (by omega)⟩
  have longer : controlSize ≤ (bytes ++ rest).length := by
    rw [List.length_append]
    omega
  have sameControl : ControlFrame.ofHeader (bytes ++ rest) = ControlFrame.ofHeader bytes :=
    ControlFrame.ofHeader_append (by simp only [controlSize] at long; omega) rest
  cases read : ControlFrame.ofHeader bytes with
  | ok f =>
    rw [decode_of_control long read, decode_of_control longer (sameControl.trans read)]
    simp only [controlSize] at long
    rw [take_drop_append (by omega), take_drop_append (by omega)]
  | error =>
    have sameHeader : DataHeader.ofBytes (bytes ++ rest) = DataHeader.ofBytes bytes :=
      DataHeader.ofBytes_append long rest
    rw [decode_of_no_control long read, decode_of_no_control longer (sameControl.trans read),
      sameHeader]
    cases hread : DataHeader.ofBytes bytes with
    | error => rfl
    | ok header =>
      have size : header.frameSize ≤ bytes.length := by
        by_contra short
        refine enough ⟨header.frameSize, bytes.length, ?_⟩
        rw [decode_of_no_control long read, hread]
        simp only [Except.bind, checkLength_of_lt (Nat.lt_of_not_le short)]
      have sizeMore : header.frameSize ≤ (bytes ++ rest).length := by
        rw [List.length_append]
        omega
      simp only [Except.bind, checkLength_of_le size, checkLength_of_le sizeMore]
      simp only [DataHeader.frameSize, overhead, headerSize, footerSize] at size ⊢
      rw [take_drop_append (by omega), take_drop_append (by omega), take_drop_append (by omega)]

/-- What the bytes of a control frame are. -/
structure ReadsControl (bytes : Bytes) (f : ControlFrame) : Prop where
  long : controlSize ≤ bytes.length
  header : ControlFrame.ofHeader bytes = .ok f
  sum : checkSum ((bytes.drop 2).take 2) ((bytes.drop 4).take 4) = .ok ()

/-- What the bytes of a data frame with the header `h` are. -/
structure ReadsData (bytes : Bytes) (h : DataHeader) : Prop where
  long : h.frameSize ≤ bytes.length
  header : DataHeader.ofBytes bytes = .ok h
  sum : checkSum ((bytes.drop 2).take (headerSize - 2 + h.length))
    ((bytes.drop (headerSize + h.length)).take footerSize) = .ok ()

theorem decode_of_readsControl {bytes : Bytes} {f : ControlFrame} (h : ReadsControl bytes f) :
    decode bytes = .ok (control f) := by
  rw [decode_of_control h.long h.header, h.sum]
  rfl

theorem decode_of_readsData {bytes : Bytes} {h : DataHeader} (read : ReadsData bytes h) :
    decode bytes = .ok (data ⟨h.id, h.metadata, (bytes.drop headerSize).take h.length⟩) := by
  obtain ⟨fault, none⟩ := DataHeader.ofHeader_eq_error read.header
  have long : controlSize ≤ bytes.length := Nat.le_trans (Nat.le_of_lt h.frameSize_pos) read.long
  rw [decode_of_no_control long none, read.header]
  simp only [Except.bind, checkLength_of_le read.long, read.sum]
  rfl

theorem reads_of_decode {bytes : Bytes} {f : Frame} (read : decode bytes = .ok f) :
    (∃ g, f = control g ∧ ReadsControl bytes g) ∨
      ∃ h : DataHeader, f = data ⟨h.id, h.metadata, (bytes.drop headerSize).take h.length⟩ ∧
        ReadsData bytes h := by
  have long : controlSize ≤ bytes.length := by
    by_contra short
    rw [decode_of_short (by omega)] at read
    cases read
  cases hread : ControlFrame.ofHeader bytes with
  | ok g =>
    rw [decode_of_control long hread] at read
    cases sum : checkSum ((bytes.drop 2).take 2) ((bytes.drop 4).take 4) with
    | error => simp [sum, Except.map] at read
    | ok =>
      simp only [sum, Except.map, Except.ok.injEq] at read
      exact .inl ⟨g, read.symm, long, hread, sum⟩
  | error =>
    rw [decode_of_no_control long hread] at read
    cases header : DataHeader.ofBytes bytes with
    | error => simp [header, Except.bind] at read
    | ok h =>
      have size : h.frameSize ≤ bytes.length := by
        by_contra short
        simp [header, Except.bind, checkLength_of_lt (Nat.lt_of_not_le short)] at read
      simp only [header, Except.bind, checkLength_of_le size] at read
      cases sum : checkSum ((bytes.drop 2).take (headerSize - 2 + h.length))
          ((bytes.drop (headerSize + h.length)).take footerSize) with
      | error => simp [sum, Except.map] at read
      | ok =>
        simp only [sum, Except.map, Except.ok.injEq] at read
        exact .inr ⟨h, read.symm, size, header, sum⟩

theorem size_le_of_decode {bytes : Bytes} {f : Frame} (read : decode bytes = .ok f) :
    f.size ≤ bytes.length := by
  obtain ⟨g, rfl, reads⟩ | ⟨h, rfl, reads⟩ := reads_of_decode read
  · exact reads.long
  · have long := reads.long
    simp only [DataHeader.frameSize, overhead, headerSize, footerSize] at long
    simp only [size, overhead, headerSize, footerSize, List.length_take, List.length_drop]
    omega

/-! ## Reading an image -/

theorem take_drop_middle {α : Type} {front middle : List α} {m n : Nat} (back : List α)
    (hm : front.length = m) (hn : middle.length = n) :
    ((front ++ (middle ++ back)).drop m).take n = middle := by
  rw [← hm, List.drop_left, ← hn, List.take_left]

theorem readsControl_image {f : ControlFrame} (hid : f.id ≤ maxId) (rest : Bytes) :
    ReadsControl (f.image ++ rest) f where
  long := by
    rw [List.length_append, ControlFrame.length_image]
    exact Nat.le_add_right _ _
  header := by
    rw [ControlFrame.image, List.append_assoc]
    exact ControlFrame.ofHeader_header hid _
  sum := by
    have covered : ((f.image ++ rest).drop 2).take 2 = f.header.drop 2 := rfl
    have trailer : ((f.image ++ rest).drop 4).take 4 = Checksum.trailer (f.header.drop 2) := by
      rw [ControlFrame.image, List.append_assoc]
      exact take_drop_middle rest f.length_header (Checksum.length_trailer _)
    rw [covered, trailer, checkSum_trailer]

theorem readsData_image {f : DataFrame} (valid : f.header.Valid) (rest : Bytes) :
    ReadsData (f.image ++ rest) f.header where
  long := by
    rw [List.length_append, DataFrame.length_image]
    simp only [DataHeader.frameSize, DataFrame.header]
    omega
  header := by
    rw [DataFrame.image, List.append_assoc, List.append_assoc]
    exact DataHeader.ofBytes_toBytes valid _
  sum := by
    have headed : (f.header.toBytes ++ f.payload).length = headerSize + f.payload.length := by
      rw [List.length_append, DataHeader.length_toBytes]
    have covered : ((f.image ++ rest).drop 2).take (headerSize - 2 + f.header.length) =
        (f.header.toBytes ++ f.payload).drop 2 := by
      rw [DataFrame.image, List.append_assoc, List.drop_append_of_le_length (by
        rw [headed]
        exact Nat.le_add_right_of_le (by decide))]
      apply List.take_left'
      rw [List.length_drop, headed]
      simp only [headerSize, DataFrame.header]
      omega
    have trailer : ((f.image ++ rest).drop (headerSize + f.header.length)).take footerSize =
        Checksum.trailer ((f.header.toBytes ++ f.payload).drop 2) := by
      rw [DataFrame.image, List.append_assoc]
      exact take_drop_middle rest headed (Checksum.length_trailer _)
    rw [covered, trailer, checkSum_trailer]

/-- From the image of a frame whose fields fit, the frame is read back. -/
theorem decode_image {f : Frame} (valid : f.Valid) (rest : Bytes) :
    decode (f.image ++ rest) = .ok f := by
  cases f with
  | control f => exact decode_of_readsControl (readsControl_image valid rest)
  | data f =>
    have payload : ((f.image ++ rest).drop headerSize).take f.header.length = f.payload := by
      rw [DataFrame.image, List.append_assoc, List.append_assoc]
      exact take_drop_middle _ f.header.length_toBytes rfl
    have read := decode_of_readsData (readsData_image valid rest)
    rwa [payload] at read

theorem image_injective {f g : Frame} (hf : f.Valid) (hg : g.Valid) (same : f.image = g.image) :
    f = g := by
  have read := decode_image hf []
  rw [same, decode_image hg] at read
  exact (Except.ok.inj read).symm

end Frame

end FramedLink
