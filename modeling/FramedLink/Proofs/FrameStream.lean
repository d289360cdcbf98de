import FramedLink.Proofs.StreamCounts

/-! # Streams in chunks

What a framer makes of a stream does not depend on how it is cut, but for the counts of bytes in the
notices: `heard_receiveChunks`. A stream of frames alone is noticed as these frames and nothing
else.
-/

namespace FramedLink.Framing

/-! ## Any stream -/

namespace Framer

/-- What becomes of a framer that reads `bytes` in chunks, and what it notices. -/
structure Heard (f : Framer) (bytes : Bytes) (result : Framer × List Notice) : Prop where
  settled : result.1.Settled
  buffer : result.1.buffer = (scan 0 bytes).2
  account : ∃ count, result.1.account = (f.account.takeAll (scan 0 bytes).1).1.withBytes count
  happenings : result.2.map Notice.happening =
    (f.account.takeAll (scan 0 bytes).1).2.map Notice.happening

theorem heard_receive {f : Framer} (settled : f.Settled) (chunk : Bytes) :
    Heard f (f.buffer ++ chunk) (f.receive chunk) := by
  have read := reads_receive settled chunk
  have taken := Account.takeAll_withBytes f.account (f.counters.bytes + chunk.length)
    (scan 0 (f.buffer ++ chunk)).1
  obtain ⟨account, notices⟩ := Prod.ext_iff.mp (read.heard.trans taken)
  refine ⟨read.settled, read.buffer, ⟨_, account⟩, ?_⟩
  simp only at notices
  rw [notices, Notice.map_happening_withBytes]

theorem heard_receiveChunks {f : Framer} (settled : f.Settled) (chunks : List Bytes) :
    Heard f (f.buffer ++ chunks.flatten) (f.receiveChunks chunks) := by
  induction chunks generalizing f with
  | nil =>
    have nothing := scan_of_none settled.undecided
    rw [List.flatten_nil, List.append_nil]
    refine ⟨settled, ?_, ⟨f.counters.bytes, ?_⟩, ?_⟩ <;> rw [nothing] <;> rfl
  | cons chunk rest ih =>
    have first := heard_receive settled chunk
    have others := ih first.settled
    have whole : scan 0 (f.buffer ++ (chunk ++ rest.flatten)) =
        ((scan 0 (f.buffer ++ chunk)).1 ++
            (scan 0 ((f.receive chunk).1.buffer ++ rest.flatten)).1,
          (scan 0 ((f.receive chunk).1.buffer ++ rest.flatten)).2) := by
      rw [← List.append_assoc, scan_append, first.buffer]
    obtain ⟨count, account⟩ := first.account
    obtain ⟨count', account'⟩ := others.account
    rw [account, Account.takeAll_withBytes] at account'
    have happenings := others.happenings
    rw [account, Account.takeAll_withBytes, Notice.map_happening_withBytes] at happenings
    rw [List.flatten_cons]
    refine ⟨others.settled, ?_, ⟨count', ?_⟩, ?_⟩
    · rw [whole]
      exact others.buffer
    · rw [whole, Account.takeAll_append]
      exact account'
    · rw [whole, Account.takeAll_append, List.map_append, ← first.happenings, ← happenings,
        ← List.map_append]
      rfl

end Framer

/-! ## A stream of frames -/

theorem image_begins (f : Frame) : ∃ rest, f.image = Frame.start1 :: rest := by
  cases f <;> exact ⟨_, rfl⟩

theorem scan_images {frames : List Frame} (valid : ∀ f ∈ frames, f.Valid) :
    scan 0 (frames.map Frame.image).flatten = (frames.map .frame, []) := by
  induction frames with
  | nil => rfl
  | cons f rest ih =>
    have later := ih fun g among => valid g (List.mem_cons_of_mem f among)
    rw [List.map_cons, List.flatten_cons, scan_image_append (valid f List.mem_cons_self), later]
    rfl

/-- Of frames alone, each is noticed and nothing else, and no flaw is counted. -/
structure Notes (frames : List Frame) (before : Counters) (after : Counters)
    (notices : List Notice) : Prop where
  happenings : notices.map Notice.happening = frames.map .frame
  crcErrors : after.crcErrors = before.crcErrors
  resyncs : after.resyncs = before.resyncs

theorem Account.notes_takeAll (a : Account) (frames : List Frame) :
    let (after, notices) := a.takeAll (frames.map .frame)
    Notes frames a.counters after.counters notices := by
  induction frames generalizing a with
  | nil => exact ⟨rfl, rfl, rfl⟩
  | cons f rest ih =>
    have later := ih (a.takeFrame f).1
    refine ⟨congrArg (Happening.frame f :: ·) later.happenings, later.crcErrors.trans ?_,
      later.resyncs.trans ?_⟩ <;> cases f <;> rfl

/-- Cut as it may be, a stream of frames is noticed as these frames. -/
theorem Framer.notes_receiveChunks {f : Framer} (settled : f.Settled) {chunks : List Bytes}
    {frames : List Frame} {left : Bytes}
    (found : scan 0 (f.buffer ++ chunks.flatten) = (frames.map .frame, left)) :
    let (after, notices) := f.receiveChunks chunks
    Notes frames f.counters after.counters notices := by
  have heard := heard_receiveChunks settled chunks
  have taken := f.account.notes_takeAll frames
  have happenings := heard.happenings
  obtain ⟨count, account⟩ := heard.account
  rw [found] at happenings account
  refine ⟨happenings.trans taken.happenings, ?_, ?_⟩
  · exact (congrArg (·.counters.crcErrors) account).trans taken.crcErrors
  · exact (congrArg (·.counters.resyncs) account).trans taken.resyncs

end FramedLink.Framing
