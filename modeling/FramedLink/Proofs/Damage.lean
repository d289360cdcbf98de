import FramedLink.Proofs.Encoding
import FramedLink.Proofs.Residue

/-! # Damage to the image of a frame

A burst of damage no longer than a checksum leaves no image of a frame, since it changes the
residue. Behind the bytes that announce the kind and the size of the frame it is always detected. A
single flipped bit in front of them is detected as well, with one exception: the length of a data
frame can become smaller, and the payload can hold the checksum of the frame that is then announced.
-/

namespace FramedLink

open FramedLink.Frame

/-- The bytes with one bit flipped. -/
def Bytes.flip (bytes : Bytes) (place bit : Nat) : Bytes :=
  bytes.modify place (· ^^^ UInt8.ofNat (1 <<< bit))

/-- Bytes are damaged, but in no more than four in a row from `start` on. -/
structure Burst (bytes damaged : Bytes) (start : Nat) : Prop where
  length : damaged.length = bytes.length
  differs : damaged ≠ bytes
  within : ∀ place, damaged[place]? ≠ bytes[place]? → start ≤ place ∧ place < start + footerSize

namespace Burst

variable {bytes damaged : Bytes} {start : Nat}

theorem front (burst : Burst bytes damaged start) : damaged.take start = bytes.take start := by
  apply List.ext_getElem?
  intro place
  rw [List.getElem?_take, List.getElem?_take]
  split
  · next before =>
    by_contra differs
    exact Nat.not_le_of_lt before (burst.within place differs).1
  · rfl

theorem back (burst : Burst bytes damaged start) :
    damaged.drop (start + footerSize) = bytes.drop (start + footerSize) := by
  apply List.ext_getElem?
  intro place
  rw [List.getElem?_drop, List.getElem?_drop]
  by_contra differs
  have before := (burst.within _ differs).2
  omega

end Burst

namespace Frame

private theorem residue_image (f : Frame) :
    (f.image.drop 2).foldl Checksum.absorb (~~~ 0) = Checksum.residue := by
  cases f with
  | data f =>
    have covered : (Frame.data f).image.drop 2 = (f.header.toBytes ++ f.payload).drop 2 ++
        Checksum.trailer ((f.header.toBytes ++ f.payload).drop 2) := rfl
    rw [covered, Checksum.foldl_absorb_trailer]
  | control f =>
    have covered : (Frame.control f).image.drop 2 =
        f.header.drop 2 ++ Checksum.trailer (f.header.drop 2) := rfl
    rw [covered, Checksum.foldl_absorb_trailer]

end Frame

/-- Behind the start bytes, no burst turns the image of a frame into that of another one. -/
theorem Burst.not_image {f g : Frame} {start : Nat} (behind : 2 ≤ start) :
    ¬ Burst f.image g.image start := by
  intro burst
  have parts (bytes : Bytes) (long : 2 ≤ (bytes.take start).length) :
      bytes.drop 2 = (bytes.take start).drop 2 ++ (bytes.drop start).take footerSize ++
        bytes.drop (start + footerSize) := by
    conv_lhs => rw [← List.take_append_drop start bytes, List.drop_append_of_le_length long]
    conv_lhs => rw [← List.take_append_drop footerSize (bytes.drop start), List.drop_drop]
    rw [List.append_assoc]
  have long (frame : Frame) : 2 ≤ (frame.image.take start).length := by
    have size : controlSize ≤ frame.image.length := by
      cases frame <;> simp [image, controlSize, overhead, headerSize, footerSize]
    rw [controlSize] at size
    rw [List.length_take]
    omega
  have one := residue_image f
  have other := residue_image g
  rw [parts _ (long _)] at one other
  rw [burst.front, burst.back] at other
  have few : ((f.image.drop start).take footerSize).length ≤ footerSize := List.length_take_le _ _
  have long : ((f.image.drop start).take footerSize).length =
      ((g.image.drop start).take footerSize).length := by
    rw [List.length_take, List.length_take, List.length_drop, List.length_drop, burst.length]
  have same := Checksum.eq_of_foldl_absorb _ _ _ long few (one.trans other.symm)
  apply burst.differs
  calc g.image
      = g.image.take start ++ ((g.image.drop start).take footerSize ++
          g.image.drop (start + footerSize)) := by
        rw [← List.drop_drop, List.take_append_drop, List.take_append_drop]
    _ = f.image.take start ++ ((f.image.drop start).take footerSize ++
          f.image.drop (start + footerSize)) := by rw [burst.front, burst.back, same]
    _ = f.image := by rw [← List.drop_drop, List.take_append_drop, List.take_append_drop]

/-! ## Bursts behind the announcement -/

private theorem ControlFrame.ofHeader_of_take {bytes damaged : Bytes} {f : ControlFrame}
    (read : ofHeader bytes = .ok f) (same : damaged.take 3 = bytes.take 3)
    (long : 4 ≤ damaged.length) : ∃ g, ofHeader damaged = .ok g := by
  match damaged, bytes with
  | d0 :: d1 :: d2 :: d3 :: damaged, b0 :: b1 :: b2 :: b3 :: bytes =>
    simp only [List.take_succ_cons, List.take_zero, List.cons.injEq, and_true] at same
    obtain ⟨rfl, rfl, rfl⟩ := same
    simp only [ofHeader, bind, Except.bind] at read ⊢
    split at read
    · cases read
    · split at read
      · exact ⟨_, rfl⟩
      · cases read

private theorem DataHeader.ofBytes_of_take {bytes damaged : Bytes} {h : DataHeader}
    (read : ofBytes bytes = .ok h) (same : damaged.take 4 = bytes.take 4)
    (long : headerSize ≤ damaged.length) : ∃ g, ofBytes damaged = .ok g ∧ g.length = h.length := by
  match damaged, bytes with
  | d0 :: d1 :: d2 :: d3 :: d4 :: d5 :: d6 :: d7 :: damaged,
    b0 :: b1 :: b2 :: b3 :: b4 :: b5 :: b6 :: b7 :: bytes =>
    simp only [List.take_succ_cons, List.take_zero, List.cons.injEq, and_true] at same
    obtain ⟨rfl, rfl, rfl, rfl⟩ := same
    simp only [ofBytes, bind, Except.bind] at read ⊢
    split at read
    · cases read
    · split at read
      · next typed =>
        cases read
        rw [if_pos typed]
        exact ⟨_, rfl, rfl⟩
      · cases read

theorem Burst.replaced {front one other back : Bytes} {start : Nat} (before : front.length = start)
    (length : other.length = one.length) (few : one.length ≤ footerSize) (differs : other ≠ one) :
    Burst (front ++ one ++ back) (front ++ other ++ back) start where
  length := by simp [length]
  differs := by simpa using differs
  within := by
    intro place changed
    by_contra outside
    apply changed
    subst before
    by_cases early : place < front.length
    · rw [List.append_assoc, List.append_assoc, List.getElem?_append_left early,
        List.getElem?_append_left early]
    · rw [List.getElem?_append_right (by simp; omega), List.getElem?_append_right (by simp; omega)]
      simp [length]

/-- Where the lower byte of the id stands. The bytes in front of it announce the kind and the size
of the frame. -/
def Frame.idPlace : Frame → Nat
  | data _ => 4
  | control _ => 3

namespace Frame

/-- Where the same frame is announced, damage can only be refused for the checksum. -/
theorem decode_of_announced {f : Frame} {damaged : Bytes} (valid : f.Valid)
    (length : damaged.length = f.size)
    (announced : damaged.take f.idPlace = f.image.take f.idPlace) :
    (∃ g, decode damaged = .ok g ∧ g.size = f.size) ∨
      ∃ computed found, decode damaged = .error (.checksumMismatch computed found) := by
  cases f with
  | control f =>
    have long : controlSize ≤ damaged.length := Nat.le_of_eq length.symm
    have read := (readsControl_image valid []).header
    rw [List.append_nil] at read
    obtain ⟨g, header⟩ := ControlFrame.ofHeader_of_take read announced
      (Nat.le_trans (by decide) long)
    rw [decode_of_control long header]
    cases sum : checkSum ((damaged.drop 2).take 2) ((damaged.drop 4).take 4) with
    | ok => exact .inl ⟨control g, rfl, rfl⟩
    | error =>
      obtain ⟨computed, found, rfl⟩ := checkSum_error sum
      exact .inr ⟨computed, found, rfl⟩
  | data f =>
    have size : (data f).size = f.header.frameSize := rfl
    have long : headerSize ≤ damaged.length := by
      rw [length, size]
      exact Nat.le_of_lt f.header.frameSize_pos
    have read := (readsData_image valid []).header
    rw [List.append_nil] at read
    obtain ⟨g, header, same⟩ := DataHeader.ofBytes_of_take read announced long
    obtain ⟨fault, none⟩ := DataHeader.ofHeader_eq_error header
    have whole : g.frameSize ≤ damaged.length := by
      rw [length, size, DataHeader.frameSize, same]
      exact Nat.le_refl _
    rw [decode_of_no_control long none, header]
    simp only [Except.bind, checkLength_of_le whole]
    cases sum : checkSum ((damaged.drop 2).take (headerSize - 2 + g.length))
        ((damaged.drop (headerSize + g.length)).take footerSize) with
    | ok =>
      refine .inl ⟨_, rfl, ?_⟩
      have payload : f.payload.length = g.length := same.symm
      simp only [Frame.size, headerSize, overhead, footerSize] at length ⊢
      rw [List.length_take, List.length_drop]
      omega
    | error =>
      obtain ⟨computed, found, rfl⟩ := checkSum_error sum
      exact .inr ⟨computed, found, rfl⟩

/-- A burst of damage behind the announcement of a frame is refused for the checksum. -/
theorem decode_burst {f : Frame} {bytes damaged : Bytes} {start : Nat}
    (encoded : f.encode = .ok bytes) (burst : Burst bytes damaged start)
    (behind : f.idPlace ≤ start) :
    ∃ computed found, decode damaged = .error (.checksumMismatch computed found) := by
  obtain ⟨valid, rfl⟩ := encode_eq_ok_iff.mp encoded
  have length : damaged.length = f.size := burst.length.trans f.length_image
  have announced : damaged.take f.idPlace = f.image.take f.idPlace := by
    rw [← Nat.min_eq_left behind, ← List.take_take, burst.front, List.take_take]
  obtain ⟨g, read, size⟩ | refused := decode_of_announced valid length announced
  · have image := (image_of_decode read).2
    rw [size, ← length, List.take_length] at image
    have further : 2 ≤ start := Nat.le_trans (by cases f <;> simp [idPlace]) behind
    exact absurd (image ▸ burst) (Burst.not_image further)
  · exact refused

/-- The last two bytes of the payload and the first two of the checksum are replaced. -/
theorem decode_burst_straddling :
    let f : Frame := data ⟨3, 4, [112, 97, 121]⟩
    let damaged := f.image.take 9 ++ [0, 0, 0, 0] ++ f.image.drop 13
    f.encode = .ok f.image ∧ Burst f.image damaged 9 ∧ f.idPlace ≤ 9 ∧
      ∃ computed found, decode damaged = .error (.checksumMismatch computed found) := by
  intro f damaged
  have encoded : f.encode = .ok f.image := encode_eq_ok_iff.mpr ⟨by decide, rfl⟩
  have whole : f.image.take 9 ++ (f.image.drop 9).take 4 ++ f.image.drop 13 = f.image := by
    decide +kernel
  have burst : Burst (f.image.take 9 ++ (f.image.drop 9).take 4 ++ f.image.drop 13) damaged 9 :=
    .replaced (by decide +kernel) (by decide +kernel) (by decide +kernel) (by decide +kernel)
  rw [whole] at burst
  exact ⟨encoded, burst, by decide, decode_burst encoded burst (by decide)⟩

end Frame

/-! ## One flipped bit -/

namespace Bytes

@[simp] theorem length_flip (bytes : Bytes) (place bit : Nat) :
    (bytes.flip place bit).length = bytes.length := List.length_modify _ _ _

theorem getElem?_flip (bytes : Bytes) (place bit other : Nat) :
    (bytes.flip place bit)[other]? =
      bytes[other]?.map fun byte =>
        if place = other then byte ^^^ UInt8.ofNat (1 <<< bit) else byte := by
  rw [flip, List.getElem?_modify]
  rfl

private theorem mask_ne_zero {bit : Nat} (single : bit < 8) : UInt8.ofNat (1 <<< bit) ≠ 0 := by
  have all : ∀ bit : Fin 8, UInt8.ofNat (1 <<< bit.val) ≠ 0 := by decide
  exact all ⟨bit, single⟩

private theorem burst_flip {bytes : Bytes} {place bit : Nat} (inside : place < bytes.length)
    (single : bit < 8) : Burst bytes (bytes.flip place bit) place where
  length := length_flip _ _ _
  differs := by
    intro same
    have here := congrArg (·[place]?) same
    simp only [getElem?_flip, if_true, List.getElem?_eq_getElem inside, Option.map_some,
      Option.some.injEq] at here
    refine mask_ne_zero single ((UInt8.xor_right_inj bytes[place]).mp ?_)
    rw [here, UInt8.xor_zero]
  within := by
    intro other differs
    have here : place = other := by
      by_contra elsewhere
      simp [getElem?_flip, elsewhere] at differs
    rw [here]
    exact ⟨Nat.le_refl _, Nat.lt_add_of_pos_right (by decide)⟩

end Bytes

theorem FrameType.ofCode?_leadByte (type : FrameType) {id : Nat} (fits : id ≤ maxId) :
    ofCode? ((type.leadByte id).toNat / 8) = some type := by
  have code : (type.code * 8 + id / 256) / 8 = type.code := by
    simp only [maxId] at fits
    omega
  rw [type.toNat_leadByte fits, code, ofCode?_code]

private theorem FrameType.eq_of_leadByte_flip {type other : FrameType} {id id' bit : Nat}
    (fits : id' ≤ maxId) (single : bit < 8)
    (flipped : type.leadByte id ^^^ UInt8.ofNat (1 <<< bit) = other.leadByte id') :
    other = type := by
  have all : ∀ high bit : Fin 8, ∀ found ∈ ofCode?
      ((UInt8.ofNat (type.code * 8 + high) ^^^ UInt8.ofNat (1 <<< bit.val)).toNat / 8),
      found = type := by
    rcases type with _ | control
    · decide
    · cases control <;> decide
  have high : id / 256 % 8 < 8 := Nat.mod_lt _ (by decide)
  refine all ⟨_, high⟩ ⟨bit, single⟩ other ?_
  have read := other.ofCode?_leadByte fits
  rw [← flipped] at read
  exact read

theorem xor_bit {n bit : Nat} (small : n < 256) (single : bit < 8) :
    n ^^^ 1 <<< bit = if n.testBit bit then n - 1 <<< bit else n + 1 <<< bit := by
  have all : ∀ (n : Fin 256) (bit : Fin 8), n.val ^^^ 1 <<< bit.val =
      if n.val.testBit bit then n - 1 <<< bit.val else n + 1 <<< bit.val := by decide +kernel
  exact all ⟨n, small⟩ ⟨bit, single⟩

namespace DataFrame

/-- What stands in front of the checksum. -/
def headed (f : DataFrame) : Bytes := f.header.toBytes ++ f.payload

/-- The checksum as it stands in the image. -/
def checksum (f : DataFrame) : Bytes := Checksum.trailer (f.headed.drop 2)

/-- The frame without the last bytes of its payload. -/
def shortened (f : DataFrame) (missing : Nat) : DataFrame :=
  { f with payload := f.payload.take (f.payload.length - missing) }

/-- Where the payload of the shorter frame ends, the bytes of its checksum stand. -/
def Hides (f : DataFrame) (missing : Nat) : Prop :=
  ((f.payload ++ f.checksum).drop (f.payload.length - missing)).take footerSize =
    (f.shortened missing).checksum

instance (f : DataFrame) (missing : Nat) : Decidable (f.Hides missing) :=
  inferInstanceAs (Decidable (_ = _))

private theorem length_headed (f : DataFrame) :
    f.headed.length = headerSize + f.payload.length := by
  rw [headed, List.length_append, DataHeader.length_toBytes]

theorem image_eq (f : DataFrame) : f.image = f.headed ++ f.checksum := rfl

/-- Flipping a bit that is set in the length cuts the last bytes off the payload. -/
theorem flip_image {f : DataFrame} {bit : Nat} (valid : f.header.Valid) (single : bit < 8)
    (set : (f.payload.length - 1).testBit bit) :
    f.image.flip 3 bit = (f.shortened (1 <<< bit)).headed ++
      (f.payload ++ f.checksum).drop (f.payload.length - 1 <<< bit) := by
  obtain ⟨-, -, some, most⟩ := valid
  simp only [header, maxPayload] at some most
  have small : f.payload.length - 1 < 256 := by omega
  have number := xor_bit small single
  rw [if_pos set] at number
  have length : (f.shortened (1 <<< bit)).payload.length = f.payload.length - 1 <<< bit :=
    List.length_take_of_le (Nat.sub_le _ _)
  have byte : UInt8.ofNat (f.payload.length - 1) ^^^ UInt8.ofNat (1 <<< bit) =
      UInt8.ofNat ((f.shortened (1 <<< bit)).payload.length - 1) := by
    rw [← UInt8.ofNat_xor, number, length, Nat.sub_right_comm]
  have parts : f.payload ++ f.checksum = (f.shortened (1 <<< bit)).payload ++
      (f.payload ++ f.checksum).drop (f.payload.length - 1 <<< bit) := by
    rw [List.drop_append_of_le_length (Nat.sub_le _ _), ← List.append_assoc]
    exact congrArg (· ++ f.checksum) (List.take_append_drop _ _).symm
  rw [image_eq, headed, headed, List.append_assoc, List.append_assoc, ← parts]
  change start1 :: start2 :: FrameType.data.leadByte f.id ::
    (UInt8.ofNat (f.payload.length - 1) ^^^ UInt8.ofNat (1 <<< bit)) :: _ = _
  rw [byte]
  rfl

private theorem valid_shortened {f : DataFrame} {bit : Nat} (valid : f.header.Valid)
    (set : (f.payload.length - 1).testBit bit) : (f.shortened (1 <<< bit)).header.Valid := by
  have part := Nat.ge_two_pow_of_testBit set
  have one := Nat.two_pow_pos bit
  simp only [DataHeader.Valid, header, shortened, List.length_take, Nat.one_shiftLeft] at valid ⊢
  omega

/-- Where the length becomes smaller and the checksum of the shorter frame stands behind what is
left of the payload, that frame is read. -/
theorem decode_flip_of_hides {f : DataFrame} {bit : Nat} (valid : f.header.Valid)
    (single : bit < 8) (set : (f.payload.length - 1).testBit bit) (hides : f.Hides (1 <<< bit)) :
    decode (f.image.flip 3 bit) = .ok (.data (f.shortened (1 <<< bit))) := by
  have fits : (Frame.data (f.shortened (1 <<< bit))).Valid := valid_shortened valid set
  rw [flip_image valid single set,
    ← List.take_append_drop footerSize ((f.payload ++ f.checksum).drop _), hides,
    ← List.append_assoc, ← image_eq]
  exact decode_image fits _

end DataFrame

namespace Frame

def type : Frame → FrameType
  | data _ => .data
  | control f => .control f.control

def id : Frame → Nat
  | data f => f.id
  | control f => f.id

private theorem id_le {f : Frame} (valid : f.Valid) : f.id ≤ maxId := by
  cases f with
  | data f => exact valid.1
  | control f => exact valid

private theorem image_lead (f : Frame) : f.image[2]? = some (f.type.leadByte f.id) := by
  cases f <;> rfl

private theorem controlSize_le_size (f : Frame) : controlSize ≤ f.size := by
  cases f with
  | data f =>
    simp only [size, controlSize, overhead, headerSize]
    omega
  | control f => exact Nat.le_refl _

private theorem type_eq_of_flip {f g : Frame} {place bit : Nat} (hf : f.Valid) (hg : g.Valid)
    (single : bit < 8) (lead : g.image[2]? = (f.image.flip place bit)[2]?) : g.type = f.type := by
  rw [Bytes.getElem?_flip, image_lead, image_lead, Option.map_some, Option.some.injEq] at lead
  split at lead
  · exact FrameType.eq_of_leadByte_flip (id_le hg) single lead.symm
  · have read := g.type.ofCode?_leadByte (id_le hg)
    rw [lead, f.type.ofCode?_leadByte (id_le hf)] at read
    exact (Option.some.inj read).symm

/-- The bit belongs to the length of a data frame that is thereby announced shorter, and the payload
holds the checksum of the shorter frame. -/
def HidesShorter (f : Frame) (place bit : Nat) : Prop :=
  ∃ d, f = data d ∧ place = 3 ∧ (d.payload.length - 1).testBit bit ∧ d.Hides (1 <<< bit)

/-- A smaller length behind one flipped bit is smaller by this bit. -/
theorem length_of_flip {d e : DataFrame} {place bit : Nat} (hd : (data d).Valid)
    (he : (data e).Valid) (single : bit < 8)
    (length : (data e).image[3]? = ((data d).image.flip place bit)[3]?)
    (shorter : e.payload.length < d.payload.length) :
    place = 3 ∧ (d.payload.length - 1).testBit bit ∧
      e.payload.length = d.payload.length - 1 <<< bit := by
  obtain ⟨-, -, some, most⟩ := hd
  obtain ⟨-, -, some', most'⟩ := he
  simp only [DataFrame.header, maxPayload] at some most some' most'
  have byte (f : DataFrame) :
      (data f).image[3]? = Option.some (UInt8.ofNat (f.payload.length - 1)) := rfl
  rw [Bytes.getElem?_flip, byte, byte, Option.map_some, Option.some.injEq] at length
  have number {m n : Nat} (hm : m < 256) (hn : n < 256) (same : UInt8.ofNat m = UInt8.ofNat n) :
      m = n := by
    have numbers := congrArg UInt8.toNat same
    rwa [UInt8.toNat_ofNat_of_lt' hm, UInt8.toNat_ofNat_of_lt' hn] at numbers
  have small : d.payload.length - 1 < 256 := by omega
  split at length
  · next here =>
    rw [← UInt8.ofNat_xor] at length
    have flipped : (d.payload.length - 1) ^^^ 1 <<< bit < 2 ^ 8 :=
      Nat.xor_lt_two_pow small (by
        rw [Nat.one_shiftLeft]
        exact Nat.pow_lt_pow_right (by decide) single)
    have lengths := number (by omega) flipped length
    rw [xor_bit small single] at lengths
    split at lengths
    · next set =>
      have part := Nat.ge_two_pow_of_testBit set
      rw [← Nat.one_shiftLeft] at part
      generalize 1 <<< bit = mask at *
      exact ⟨here, set, by omega⟩
    · generalize 1 <<< bit = mask at *
      omega
  · have lengths := number (by omega) small length
    omega

private theorem hidesShorter_of_decode_flip {f : Frame} (valid : f.Valid) {place bit : Nat}
    (behind : 2 ≤ place) (inside : place < f.size) (single : bit < 8) {g : Frame}
    (read : decode (f.image.flip place bit) = .ok g) : f.HidesShorter place bit := by
  obtain ⟨valid', image⟩ := image_of_decode read
  have size : g.size ≤ f.size := by
    have reaches := size_le_of_decode read
    rwa [Bytes.length_flip, length_image] at reaches
  have other : g.size ≠ f.size := by
    intro same
    rw [same, ← length_image, ← Bytes.length_flip f.image place bit, List.take_length] at image
    have burst : Burst f.image (f.image.flip place bit) place :=
      Bytes.burst_flip (by rwa [length_image]) single
    exact Burst.not_image behind (image ▸ burst)
  have byte {n : Nat} (early : n < g.size) : g.image[n]? = (f.image.flip place bit)[n]? := by
    rw [← image, List.getElem?_take_of_lt early]
  have eight := g.controlSize_le_size
  rw [controlSize] at eight
  have same := type_eq_of_flip valid valid' single (byte (by omega))
  cases f with
  | control f =>
    cases g with
    | data g => cases same
    | control g => exact absurd rfl other
  | data d =>
    cases g with
    | control g => cases same
    | data e =>
      have shorter : e.payload.length < d.payload.length := by
        simp only [Frame.size] at size other
        omega
      obtain ⟨rfl, set, kept⟩ := length_of_flip valid valid' single (byte (by omega)) shorter
      refine ⟨d, rfl, rfl, set, ?_⟩
      -- Both frames have the same bytes in front of their checksums.
      have headed : (d.shortened (1 <<< bit)).headed.length = e.headed.length := by
        rw [DataFrame.length_headed, DataFrame.length_headed, kept]
        exact congrArg (headerSize + ·) (List.length_take_of_le (Nat.sub_le _ _))
      have whole : (data e).size = e.headed.length + footerSize := by
        rw [DataFrame.length_headed, Frame.size, overhead]
        omega
      rw [Frame.image, DataFrame.flip_image valid single set, Frame.image, DataFrame.image_eq,
        whole, ← headed, List.take_length_add_append] at image
      obtain ⟨front, behind⟩ := List.append_inj image headed
      rw [DataFrame.Hides, behind, DataFrame.checksum, DataFrame.checksum, front]

/-- A frame of which a single bit behind the start bytes was flipped is refused, unless the flipped
bit makes a data frame shorter and its payload holds the checksum of the shorter frame. -/
theorem decode_flip {f : Frame} {bytes : Bytes} (encoded : f.encode = .ok bytes) {place bit : Nat}
    (behind : 2 ≤ place) (inside : place < bytes.length) (single : bit < 8) :
    (∃ fault, decode (bytes.flip place bit) = .error fault) ↔ ¬ f.HidesShorter place bit := by
  obtain ⟨valid, rfl⟩ := encode_eq_ok_iff.mp encoded
  rw [length_image] at inside
  constructor
  · rintro ⟨fault, refused⟩ ⟨d, rfl, rfl, set, hides⟩
    rw [image, d.decode_flip_of_hides valid single set hides] at refused
    cases refused
  · intro shows
    cases read : decode (f.image.flip place bit) with
    | error fault => exact ⟨fault, rfl⟩
    | ok g => exact absurd (hidesShorter_of_decode_flip valid behind inside single read) shows

/-- A length that becomes smaller is noticed where no checksum stands behind the payload left. -/
theorem decode_flip_shorter :
    let d : DataFrame := ⟨1029, 0x70605, [1, 2, 3, 4, 5, 6]⟩
    encode (data d) = .ok d.image ∧ 2 ≤ 3 ∧ 3 < d.image.length ∧ 2 < 8 ∧
      ¬ (data d).HidesShorter 3 2 ∧ ∃ fault, decode (d.image.flip 3 2) = .error fault := by
  intro d
  have encoded : encode (data d) = .ok d.image := encode_eq_ok_iff.mpr ⟨by decide, rfl⟩
  have inside : 3 < d.image.length := by simp [d, overhead, headerSize, footerSize]
  have shows : ¬ (data d).HidesShorter 3 2 := by
    rintro ⟨_, same, -, -, hides⟩
    cases same
    revert hides
    decide +kernel
  exact ⟨encoded, by decide, inside, by decide, shows,
    (decode_flip encoded (by decide) inside (by decide)).mpr shows⟩

/-- A payload of five bytes, the last four of which are the checksum of the frame with the first one
alone: where its length is read as one, that frame is taken for whole. -/
theorem decode_flip_hidden :
    let d : DataFrame := ⟨0, 0, [1, 232, 239, 107, 234]⟩
    encode (data d) = .ok d.image ∧ 2 ≤ 3 ∧ 3 < d.image.length ∧ 2 < 8 ∧
      decode (d.image.flip 3 2) = .ok (data ⟨0, 0, [1]⟩) := by
  intro d
  have inside : 3 < d.image.length := by simp [d, overhead, headerSize, footerSize]
  have hides : d.Hides (1 <<< 2) := by decide +kernel
  exact ⟨encode_eq_ok_iff.mpr ⟨by decide, rfl⟩, by decide, inside, by decide,
    d.decode_flip_of_hides (by decide) (by decide) (by decide) hides⟩

end Frame

end FramedLink
