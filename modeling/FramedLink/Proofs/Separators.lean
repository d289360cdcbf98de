import FramedLink.Proofs.FrameStream

/-! # Between frames

Frames may be kept apart by idle filler and by bytes that belong to no frame. As long as none of the
latter can be taken for a start byte, every frame is found with no checksum looked for in vain, and
a loss is noticed once for each run of such bytes and never for filler: `separated_receiveChunks`.
-/

namespace FramedLink.Framing

open FramedLink.Frame

/-- Filler in front of a frame: it begins as the frame does. -/
inductive Idle where
  | start
  | starts
  deriving DecidableEq, Repr

namespace Idle

def bytes : Idle → Bytes
  | start => [start1]
  | starts => [start1, start2]

def flaw : Idle → Flaw
  | start => .loneStart
  | starts => .idlePair

end Idle

/-- What keeps a frame apart from the one before it. -/
structure Separator where
  /-- How many first start bytes come first. -/
  filler : Nat := 0
  /-- Bytes that belong to no frame. -/
  foreign : Bytes := []
  idle : List Idle := []
  deriving DecidableEq, Repr

namespace Separator

def bytes (s : Separator) : Bytes :=
  List.replicate s.filler start1 ++ (s.foreign ++ s.idle.flatMap Idle.bytes)

/-- None of the foreign bytes can be taken for a start byte. -/
structure Harmless (s : Separator) : Prop where
  noStart : start1 ∉ s.foreign
  apart : 0 < s.filler → s.foreign.head? ≠ some start2

/-- What is found of it in front of a frame. -/
def findings (s : Separator) : List Finding :=
  List.replicate s.filler (.flaw .loneStart) ++
    (List.replicate s.foreign.length (.flaw .noise) ++ s.idle.map (.flaw ·.flaw))

/-- Of what notice is given. -/
def losses (s : Separator) : List Happening := if s.foreign = [] then [] else [.lost]

end Separator

/-! ## What is found -/

/-- Reading `bytes` comes to `rest` with these findings. -/
def Leads (bytes : Bytes) (findings : List Finding) (rest : Bytes) : Prop :=
  scan 0 bytes = (findings ++ (scan 0 rest).1, (scan 0 rest).2)

section Leads

variable {bytes middle rest : Bytes} {findings later : List Finding}

theorem Leads.refl (bytes : Bytes) : Leads bytes [] bytes := rfl

theorem Leads.trans (first : Leads bytes findings middle) (second : Leads middle later rest) :
    Leads bytes (findings ++ later) rest := by
  unfold Leads at first second ⊢
  rw [first, second, List.append_assoc]

theorem leads_of_found {finding : Finding} (found : examine bytes = some finding)
    (left : bytes.drop finding.length = rest) : Leads bytes [finding] rest := by
  unfold Leads
  rw [scan_of_some found, left]
  rfl

private theorem leads_image {frame : Frame} (valid : frame.Valid) (rest : Bytes) :
    Leads (frame.image ++ rest) [.frame frame] rest := by
  apply leads_of_found (examine_image valid rest)
  rw [Finding.length, ← length_image]
  exact List.drop_left

/-- The bytes do not go on with the second start byte. -/
def Apart (bytes : Bytes) : Prop := ∃ b behind, bytes = b :: behind ∧ b ≠ start2

theorem apart_start (behind : Bytes) : Apart (start1 :: behind) := ⟨_, behind, rfl, by decide⟩

theorem Apart.leads (apart : Apart rest) : Leads (start1 :: rest) [.flaw .loneStart] rest := by
  obtain ⟨b, behind, rfl, other⟩ := apart
  exact leads_of_found (examine_loneStart other behind) rfl

private theorem leads_filler (n : Nat) (apart : 0 < n → Apart rest) :
    Leads (List.replicate n start1 ++ rest) (List.replicate n (.flaw .loneStart)) rest := by
  induction n with
  | zero => exact .refl rest
  | succ n ih =>
    have behind : Apart (List.replicate n start1 ++ rest) := by
      cases n with
      | zero => exact apart Nat.one_pos
      | succ n => exact apart_start _
    exact behind.leads.trans (ih fun _ => apart (Nat.succ_pos n))

private theorem leads_foreign {foreign : Bytes} (noStart : start1 ∉ foreign) (rest : Bytes) :
    Leads (foreign ++ rest) (List.replicate foreign.length (.flaw .noise)) rest := by
  induction foreign with
  | nil => exact .refl rest
  | cons b more ih =>
    obtain ⟨first, others⟩ := not_or.mp (mt List.mem_cons.mpr noStart)
    have noise : Leads (b :: (more ++ rest)) [.flaw .noise] (more ++ rest) :=
      leads_of_found (examine_noise (Ne.symm first) _) rfl
    exact noise.trans (ih others)

theorem idle_begins (idle : List Idle) (rest : Bytes) :
    ∃ behind, idle.flatMap Idle.bytes ++ start1 :: rest = start1 :: behind := by
  cases idle with
  | nil => exact ⟨rest, rfl⟩
  | cons unit more => cases unit <;> exact ⟨_, rfl⟩

private theorem leads_idle (idle : List Idle) (rest : Bytes) :
    Leads (idle.flatMap Idle.bytes ++ start1 :: rest) (idle.map (.flaw ·.flaw))
      (start1 :: rest) := by
  induction idle with
  | nil => exact .refl _
  | cons unit more ih =>
    obtain ⟨behind, begins⟩ := idle_begins more rest
    rw [List.flatMap_cons, List.append_assoc, begins]
    rw [begins] at ih
    cases unit with
    | start => exact (apart_start behind).leads.trans ih
    | starts =>
      have pair : Leads (start1 :: start2 :: start1 :: behind) [.flaw .idlePair]
        (start1 :: behind) := leads_of_found (examine_idlePair behind) rfl
      exact pair.trans ih

end Leads

theorem Separator.Harmless.leads {s : Separator} (harmless : s.Harmless) (rest : Bytes) :
    Leads (s.bytes ++ start1 :: rest) s.findings (start1 :: rest) := by
  have idle := leads_idle s.idle rest
  have foreign := leads_foreign harmless.noStart (s.idle.flatMap Idle.bytes ++ start1 :: rest)
  have apart : 0 < s.filler →
      Apart (s.foreign ++ (s.idle.flatMap Idle.bytes ++ start1 :: rest)) := by
    intro some
    have other := harmless.apart some
    cases bytes : s.foreign with
    | nil =>
      obtain ⟨behind, begins⟩ := idle_begins s.idle rest
      rw [begins]
      exact apart_start behind
    | cons b more =>
      rw [bytes] at other
      exact ⟨b, _, rfl, fun same => other (congrArg Option.some same)⟩
  have filler := leads_filler s.filler apart
  simp only [Separator.bytes, List.append_assoc]
  exact filler.trans (foreign.trans idle)

/-- The bytes of frames with a separator in front of each. -/
def separated (parts : List (Separator × Frame)) : Bytes :=
  parts.flatMap fun part => part.1.bytes ++ part.2.image

private theorem leads_separated {parts : List (Separator × Frame)}
    (harmless : ∀ p ∈ parts, p.1.Harmless) (valid : ∀ p ∈ parts, p.2.Valid) :
    Leads (separated parts) (parts.flatMap fun p => p.1.findings ++ [.frame p.2]) [] := by
  induction parts with
  | nil => exact .refl []
  | cons first others ih =>
    have later := ih (fun p among => harmless p (List.mem_cons_of_mem _ among))
      fun p among => valid p (List.mem_cons_of_mem _ among)
    have image := leads_image (valid _ List.mem_cons_self) (separated others)
    have separator := (harmless _ List.mem_cons_self).leads
    obtain ⟨behind, begins⟩ := image_begins first.2
    have bytes : separated (first :: others) =
        first.1.bytes ++ start1 :: (behind ++ separated others) := by
      rw [← List.cons_append, ← begins]
      exact List.append_assoc _ _ _
    rw [begins, List.cons_append] at image
    rw [bytes, List.flatMap_cons]
    exact ((separator _).trans image).trans later

private theorem isError_separated (parts : List (Separator × Frame)) :
    (parts.flatMap fun p => p.1.findings ++ [.frame p.2]).countP Finding.isError = 0 := by
  rw [List.countP_eq_zero]
  intro finding among
  obtain ⟨p, -, inside⟩ := List.mem_flatMap.mp among
  simp only [Separator.findings, List.mem_append, List.mem_replicate, List.mem_map,
    List.mem_singleton] at inside
  rcases inside with (⟨-, rfl⟩ | ⟨-, rfl⟩ | ⟨unit, -, rfl⟩) | rfl
  · exact Bool.false_ne_true
  · exact Bool.false_ne_true
  · cases unit <;> exact Bool.false_ne_true
  · exact Bool.false_ne_true

/-! ## Of what notice is given -/

namespace Account

private theorem takeAll_filler {findings : List Finding}
    (filler : ∀ finding ∈ findings, finding = .flaw .loneStart ∨ finding = .flaw .idlePair)
    (a : Account) : a.takeAll findings = (a, []) := by
  induction findings with
  | nil => rfl
  | cons first others ih =>
    obtain ⟨here, later⟩ := List.forall_mem_cons.mp filler
    have passed : a.take first = (a, none) := by
      rcases here with rfl | rfl <;> rfl
    rw [takeAll, passed]
    exact ih later

private theorem takeAll_noise {a : Account} (new : a.lossNoticed = false) (n : Nat) :
    let (_, notices) := a.takeAll (List.replicate n (.flaw .noise))
    notices.map Notice.happening = if n = 0 then [] else [.lost] := by
  have again {a : Account} (noticed : a.lossNoticed = true) (n : Nat) :
      (a.takeAll (List.replicate n (.flaw .noise))).2 = [] := by
    induction n generalizing a with
    | zero => rfl
    | succ n ih =>
      have lost : a.take (.flaw .noise) = ({ a with inSync := false }, none) := if_pos noticed
      rw [List.replicate_succ, takeAll, lost]
      exact ih noticed
  cases n with
  | zero => rfl
  | succ n =>
    obtain ⟨counters, inSync, lossNoticed⟩ := a
    obtain rfl : lossNoticed = false := new
    rw [List.replicate_succ, takeAll]
    have later := again (a := (takeLoss ⟨counters, inSync, false⟩).1) rfl n
    exact congrArg (fun later => Happening.lost :: later.map Notice.happening) later

/-- Where no loss lasts, one is noticed for the foreign bytes of the separator, and then the
frame. -/
theorem takeAll_separator {a : Account} (new : a.lossNoticed = false) (s : Separator) (f : Frame) :
    let (after, notices) := a.takeAll (s.findings ++ [.frame f])
    after.lossNoticed = false ∧ notices.map Notice.happening = s.losses ++ [.frame f] := by
  have filler : a.takeAll (List.replicate s.filler (.flaw .loneStart)) = (a, []) :=
    takeAll_filler (fun _ among => .inl (List.eq_of_mem_replicate among)) a
  have noise := takeAll_noise new s.foreign.length
  have idle (a : Account) : a.takeAll (s.idle.map (.flaw ·.flaw)) = (a, []) := by
    refine takeAll_filler (fun finding among => ?_) a
    obtain ⟨unit, -, rfl⟩ := List.mem_map.mp among
    cases unit with
    | start => exact .inl rfl
    | starts => exact .inr rfl
  have losses : s.losses = if s.foreign.length = 0 then [] else [.lost] := by
    simp only [Separator.losses, List.length_eq_zero_iff]
  simp only [Separator.findings, takeAll_append, filler, idle]
  refine ⟨rfl, ?_⟩
  rw [losses, ← noise]
  simp [takeAll, take, takeFrame]

private theorem takeAll_separated {a : Account} (new : a.lossNoticed = false)
    (parts : List (Separator × Frame)) :
    (a.takeAll (parts.flatMap fun p => p.1.findings ++ [.frame p.2])).2.map Notice.happening =
      parts.flatMap fun p => p.1.losses ++ [.frame p.2] := by
  induction parts generalizing a with
  | nil => rfl
  | cons first others ih =>
    obtain ⟨after, noticed⟩ := takeAll_separator new first.1 first.2
    rw [List.flatMap_cons, takeAll_append, List.flatMap_cons, ← noticed, ← ih after]
    exact List.map_append

end Account

/-! ## The framer -/

namespace Framer

theorem Counted.receiveChunks {f : Framer} {bytes : Bytes} (counted : f.Counted bytes)
    (chunks : List Bytes) : (f.receiveChunks chunks).1.Counted (bytes ++ chunks.flatten) := by
  induction chunks generalizing f bytes with
  | nil =>
    rw [List.flatten_nil, List.append_nil]
    exact counted
  | cons chunk rest ih =>
    rw [List.flatten_cons, ← List.append_assoc]
    exact ih (counted.receive chunk)

/-- Cut as it may be, a stream of frames with harmless separators is noticed as these frames, with
one loss for each separator in which there are foreign bytes; all the while no error is counted. -/
theorem separated_receiveChunks (capacity : Nat) {parts : List (Separator × Frame)}
    (harmless : ∀ p ∈ parts, p.1.Harmless) (valid : ∀ p ∈ parts, p.2.Valid)
    {chunks : List Bytes} (stream : chunks.flatten = separated parts) :
    ((ofCapacity capacity).receiveChunks chunks).2.map Notice.happening =
        parts.flatMap (fun p => p.1.losses ++ [.frame p.2]) ∧
      ∀ front back, chunks = front ++ back →
        ((ofCapacity capacity).receiveChunks front).1.counters.crcErrors = 0 := by
  have found : scan 0 (separated parts) = _ := leads_separated harmless valid
  constructor
  · have heard := (heard_receiveChunks (settled_ofCapacity capacity) chunks).happenings
    have whole : (ofCapacity capacity).buffer ++ chunks.flatten = separated parts := stream
    rw [whole, found, scan, List.append_nil] at heard
    exact heard.trans (Account.takeAll_separated rfl parts)
  · rintro front back rfl
    have counted : ((ofCapacity capacity).receiveChunks front).1.Counted front.flatten :=
      (Counted.new _).receiveChunks front
    have errors : (scan 0 (separated parts)).1.countP Finding.isError = 0 := by
      rw [found, scan, List.append_nil]
      exact isError_separated parts
    rw [counted.counters]
    -- What is found in the first chunks is found in the whole stream.
    rw [← stream, List.flatten_append, scan_append, List.countP_append] at errors
    exact Nat.eq_zero_of_add_eq_zero_right errors

/-- Filler on both sides of foreign bytes, and filler alone in front of the second frame. -/
theorem separated_twice :
    let first : Separator := { filler := 2, foreign := [7, 0, 9], idle := [.starts, .start] }
    let second : Separator := { filler := 1, idle := [.starts, .starts] }
    let parts : List (Separator × Frame) :=
      [(first, .data ⟨6, 7, [8, 9]⟩), (second, .control ⟨.ackAll, 5⟩)]
    let chunks := [(separated parts).take 7, (separated parts).drop 7]
    (∀ p ∈ parts, p.1.Harmless) ∧ (∀ p ∈ parts, p.2.Valid) ∧
      chunks.flatten = separated parts ∧
      ((ofCapacity 0).receiveChunks chunks).2.map Notice.happening =
        [.lost, .frame (.data ⟨6, 7, [8, 9]⟩), .frame (.control ⟨.ackAll, 5⟩)] ∧
      ((ofCapacity 0).receiveChunks chunks).1.counters.crcErrors = 0 := by
  intro first second parts chunks
  have harmless : ∀ p ∈ parts, p.1.Harmless := by
    have both : first.Harmless ∧ second.Harmless :=
      ⟨⟨by decide, fun _ => by decide⟩, ⟨by decide, fun _ => by decide⟩⟩
    simpa [parts] using both
  have valid : ∀ p ∈ parts, p.2.Valid := by decide
  have stream : chunks.flatten = separated parts := by
    simp only [chunks, List.flatten_cons, List.flatten_nil, List.append_nil,
      List.take_append_drop]
  obtain ⟨noticed, errors⟩ := separated_receiveChunks 0 harmless valid stream
  exact ⟨harmless, valid, stream, noticed, errors chunks [] (List.append_nil _).symm⟩

end Framer

end FramedLink.Framing
