import FramedLink.Framing.Framer

/-! # How a stream is cut

A framer counts the bytes of a chunk before it examines them, and never looks at the count again.
That is all that it knows of chunks, so it does not matter where one ends and the next begins.
-/

namespace FramedLink.Framing

/-- The notice with another count of bytes. -/
def Notice.withBytes (notice : Notice) (bytes : Nat) : Notice :=
  { notice with counters.bytes := bytes }

theorem Notice.map_happening_withBytes (notices : List Notice) (bytes : Nat) :
    (notices.map (·.withBytes bytes)).map Notice.happening = notices.map Notice.happening := by
  rw [List.map_map]
  rfl

namespace Account

/-- The account with another count of bytes. -/
def withBytes (a : Account) (bytes : Nat) : Account := { a with counters.bytes := bytes }

theorem takeFrame_withBytes (a : Account) (frame : Frame) (bytes : Nat) :
    (a.withBytes bytes).takeFrame frame =
      ((a.takeFrame frame).1.withBytes bytes, (a.takeFrame frame).2.map (·.withBytes bytes)) := by
  cases frame <;> rfl

theorem takeLoss_withBytes (a : Account) (bytes : Nat) :
    (a.withBytes bytes).takeLoss =
      (a.takeLoss.1.withBytes bytes, a.takeLoss.2.map (·.withBytes bytes)) := by
  have same : (a.withBytes bytes).lossNoticed = a.lossNoticed := rfl
  unfold takeLoss
  rw [same]
  split <;> rfl

end Account

namespace Framer

/-- The framer with another count of bytes. -/
def withBytes (f : Framer) (bytes : Nat) : Framer := { f with account := f.account.withBytes bytes }

variable (f : Framer) (bytes : Nat) (byte : UInt8)

/-- The step is the same under every count of bytes. -/
def IgnoresBytes (step : Framer → Framer × Option Notice) : Prop :=
  ∀ f bytes, step (f.withBytes bytes) =
    ((step f).1.withBytes bytes, (step f).2.map (·.withBytes bytes))

theorem complete_withBytes (frame : Frame) (size : Nat) :
    IgnoresBytes fun f => f.complete frame size := by
  intro f bytes
  have taken := f.account.takeFrame_withBytes frame bytes
  simp only [complete, withBytes, taken]
  rfl

private theorem searchStart_withBytes : IgnoresBytes fun f => f.searchStart byte := by
  intro f bytes
  have position : (f.withBytes bytes).position = f.position := rfl
  have lost := f.account.takeLoss_withBytes bytes
  simp only [searchStart, position]
  split
  · split
    · rfl
    · simp only [withBytes, lost]
      rfl
  · split <;> rfl

private theorem searchType_withBytes : IgnoresBytes fun f => f.searchType byte := by
  intro f bytes
  have lost := f.account.addError.takeLoss_withBytes bytes
  simp only [searchType]
  split
  · rfl
  · split
    · have error : (f.account.withBytes bytes).addError = f.account.addError.withBytes bytes := rfl
      simp only [withBytes, error, lost]
      rfl
    · rfl

private theorem headerComplete_withBytes : IgnoresBytes headerComplete := by
  intro f bytes
  have buffer : (f.withBytes bytes).buffer = f.buffer := rfl
  simp only [headerComplete, buffer]
  split
  · split
    · exact complete_withBytes _ _ f bytes
    · rfl
  · split <;> rfl

private theorem dataComplete_withBytes : IgnoresBytes dataComplete := by
  intro f bytes
  have buffer : (f.withBytes bytes).buffer = f.buffer := rfl
  have size : (f.withBytes bytes).frameSize = f.frameSize := rfl
  simp only [dataComplete, buffer, size]
  split
  · rfl
  · split
    · rfl
    · exact complete_withBytes _ _ f bytes

private theorem examineNext_withBytes : IgnoresBytes fun f => f.examineNext byte := by
  intro f bytes
  have stage : (f.withBytes bytes).stage = f.stage := rfl
  simp only [examineNext, stage]
  split
  · exact searchStart_withBytes byte f bytes
  · exact searchType_withBytes byte f bytes
  · have position : (f.withBytes bytes).position = f.position := rfl
    simp only [position]
    split
    · exact headerComplete_withBytes { f with position := f.position + 1 } bytes
    · rfl
  · have position : (f.withBytes bytes).position = f.position := rfl
    have size : (f.withBytes bytes).frameSize = f.frameSize := rfl
    simp only [position, size]
    split
    · exact dataComplete_withBytes { f with position := f.position + 1 } bytes
    · rfl

private theorem examineAll_of_lt {f : Framer} (more : f.position < f.buffer.length) :
    f.examineAll =
      let examined := f.examineNext f.buffer[f.position]
      (examined.1.examineAll.1, examined.2.toList ++ examined.1.examineAll.2) := by
  rw [examineAll, dif_pos more]

private theorem examineAll_of_not_lt {f : Framer} (done : ¬ f.position < f.buffer.length) :
    f.examineAll = (f, []) := by
  rw [examineAll, dif_neg done]

private theorem examineAll_withBytes :
    (f.withBytes bytes).examineAll =
      (f.examineAll.1.withBytes bytes, f.examineAll.2.map (·.withBytes bytes)) := by
  induction f using examineAll.induct with
  | case1 f more examined last notices after ih =>
    have here : (f.withBytes bytes).examineNext f.buffer[f.position] =
        (examined.1.withBytes bytes, examined.2.map (·.withBytes bytes)) :=
      examineNext_withBytes f.buffer[f.position] f bytes
    have others := examineAll_of_lt (f := f.withBytes bytes) more
    change (f.withBytes bytes).examineAll =
      (((f.withBytes bytes).examineNext f.buffer[f.position]).1.examineAll.1,
        ((f.withBytes bytes).examineNext f.buffer[f.position]).2.toList ++
          ((f.withBytes bytes).examineNext f.buffer[f.position]).1.examineAll.2) at others
    rw [others, here, ih, examineAll_of_lt more]
    simp only [List.map_append]
    cases examined.2 <;> rfl
  | case2 f done =>
    have none := examineAll_of_not_lt (f := f.withBytes bytes) done
    rw [none, examineAll_of_not_lt done]
    rfl

theorem receiveByte_withBytes :
    (f.withBytes bytes).receiveByte byte =
      ((f.receiveByte byte).1.withBytes bytes, (f.receiveByte byte).2.map (·.withBytes bytes)) :=
  examineAll_withBytes { f with buffer := f.buffer ++ [byte] } bytes

private theorem receiveBytes_withBytes (chunk : Bytes) :
    (f.withBytes bytes).receiveBytes chunk =
      ((f.receiveBytes chunk).1.withBytes bytes,
        (f.receiveBytes chunk).2.map (·.withBytes bytes)) := by
  induction chunk generalizing f with
  | nil => rfl
  | cons byte rest ih =>
    simp only [receiveBytes, receiveByte_withBytes, ih, List.map_append]

private theorem receive_eq (chunk : Bytes) :
    f.receive chunk = (f.withBytes (f.counters.bytes + chunk.length)).receiveBytes chunk := rfl

/-- To receive a chunk is to receive its first byte and then the others; only the counts of bytes
in the notices tell the difference. -/
theorem receive_cons (rest : Bytes) :
    (f.receive (byte :: rest)).1 = ((f.receive [byte]).1.receive rest).1 ∧
      (f.receive (byte :: rest)).2.map Notice.happening =
        ((f.receive [byte]).2 ++ ((f.receive [byte]).1.receive rest).2).map Notice.happening := by
  generalize first : f.receiveByte byte = result
  obtain ⟨g, notices⟩ := result
  have alone : f.receive [byte] = (g.withBytes (f.counters.bytes + 1),
      notices.map (·.withBytes (f.counters.bytes + 1))) := by
    rw [receive_eq]
    simp only [receiveBytes, receiveByte_withBytes, first, List.append_nil]
    rfl
  have others : (g.withBytes (f.counters.bytes + 1)).receive rest =
      ((g.receiveBytes rest).1.withBytes (f.counters.bytes + 1 + rest.length),
        (g.receiveBytes rest).2.map (·.withBytes (f.counters.bytes + 1 + rest.length))) := by
    rw [receive_eq, ← receiveBytes_withBytes]
    rfl
  rw [receive_eq, alone]
  simp only [receiveBytes, receiveByte_withBytes, first, receiveBytes_withBytes, others,
    List.map_append, Notice.map_happening_withBytes, List.length_cons]
  rw [Nat.add_assoc, Nat.add_comm 1, and_true]

end Framer

end FramedLink.Framing
