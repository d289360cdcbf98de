import FramedLink.Proofs.FramerReading

/-! # The log of a framer

Notice is given of frames and of losses only. The log tells of more: that a framer refused some
bytes, which it only counts, that it has examined a chunk to its end, and that it was reset or its
counters were cleared. What stands in the log of a chunk depends on the findings in its bytes
alone: `incidentsOfBytes_eq`.
-/

namespace FramedLink.Framing

/-- What can be done with a framer. -/
inductive Use where
  | receive (chunk : Bytes)
  | reset
  | clearCounters
  deriving DecidableEq, Repr

inductive Incident where
  /-- The bytes that announce a frame were counted as an error. -/
  | refused
  | noticed (happening : Happening)
  /-- The bytes of a chunk were examined, all of them. -/
  | returned
  | reset
  | cleared
  deriving DecidableEq, Repr

/-- That of which notice is given. -/
def Incident.happening? : Incident → Option Happening
  | noticed happening => some happening
  | _ => none

namespace Account

/-- What happens where one account follows another: an error is counted, and then notice is
given. -/
def incidents (before : Account) (result : Account × Option Notice) : List Incident :=
  (if before.counters.crcErrors < result.1.counters.crcErrors then [.refused] else []) ++
    (result.2.map fun notice => .noticed notice.happening).toList

/-- What happens while account is taken of several findings. -/
def log (a : Account) : List Finding → List Incident
  | [] => []
  | finding :: rest => a.incidents (a.take finding) ++ (a.take finding).1.log rest

private theorem log_append (a : Account) (front back : List Finding) :
    a.log (front ++ back) = a.log front ++ (a.takeAll front).1.log back := by
  induction front generalizing a with
  | nil => rfl
  | cons finding rest ih => simp [log, takeAll, ih]

theorem incidents_self (a : Account) : a.incidents (a, none) = [] := by
  simp [incidents]

private theorem happenings_incidents (before : Account) (result : Account × Option Notice) :
    (before.incidents result).filterMap Incident.happening? =
      (result.2.map Notice.happening).toList := by
  rw [incidents, List.filterMap_append]
  cases result.2 <;> split <;> rfl

end Account

namespace Framer

/-- What happens while the bytes of the buffer are examined up to its end. -/
def incidentsOfBuffer (f : Framer) : List Incident :=
  if h : f.position < f.buffer.length then
    let examined := f.examineNext f.buffer[f.position]
    f.account.incidents (examined.1.account, examined.2) ++ examined.1.incidentsOfBuffer
  else []
termination_by f.work
decreasing_by exact nearer_examineNext h _

def incidentsOfBytes : Framer → Bytes → List Incident
  | _, [] => []
  | f, byte :: rest =>
    { f with buffer := f.buffer ++ [byte] }.incidentsOfBuffer ++
      (f.receiveByte byte).1.incidentsOfBytes rest

/-- The framer after a use, and what happened in it. -/
def use (f : Framer) : Use → Framer × List Incident
  | .receive chunk =>
    let counted := { f with account.counters.bytes := f.counters.bytes + chunk.length }
    ((f.receive chunk).1, counted.incidentsOfBytes chunk ++ [.returned])
  | .reset => (f.reset, [.reset])
  | .clearCounters => (f.clearCounters, [.cleared])

/-- The framer after several uses, and its log. -/
def uses : Framer → List Use → Framer × List Incident
  | f, [] => (f, [])
  | f, first :: others =>
    let (f, log) := f.use first
    let (f, later) := f.uses others
    (f, log ++ later)

/-- The notices that a framer gives in several uses. -/
def notices : Framer → List Use → List Notice
  | _, [] => []
  | f, .receive chunk :: others => (f.receive chunk).2 ++ (f.receive chunk).1.notices others
  | f, .reset :: others => f.reset.notices others
  | f, .clearCounters :: others => f.clearCounters.notices others

/-! ## The log and the notices -/

private theorem happenings_incidentsOfBuffer (f : Framer) :
    f.incidentsOfBuffer.filterMap Incident.happening? =
      f.examineAll.2.map Notice.happening := by
  induction f using incidentsOfBuffer.induct with
  | case1 f more examined ih =>
    rw [incidentsOfBuffer, dif_pos more, examineAll, dif_pos more, List.filterMap_append,
      Account.happenings_incidents, ih, List.map_append]
    congr 1
    cases examined.2 <;> rfl
  | case2 f done =>
    rw [incidentsOfBuffer, dif_neg done, examineAll, dif_neg done]
    rfl

private theorem happenings_incidentsOfBytes (f : Framer) (bytes : Bytes) :
    (f.incidentsOfBytes bytes).filterMap Incident.happening? =
      (f.receiveBytes bytes).2.map Notice.happening := by
  induction bytes generalizing f with
  | nil => rfl
  | cons byte rest ih =>
    simp only [incidentsOfBytes, receiveBytes, List.filterMap_append, List.map_append,
      happenings_incidentsOfBuffer, ih, receiveByte]

/-- The log of a chunk tells of everything of which notice is given, in the same order. -/
theorem happenings_use (f : Framer) (chunk : Bytes) :
    (f.use (.receive chunk)).2.filterMap Incident.happening? =
      (f.receive chunk).2.map Notice.happening := by
  rw [use, List.filterMap_append, happenings_incidentsOfBytes]
  exact List.append_nil _

theorem happenings_uses (f : Framer) (uses : List Use) :
    (f.uses uses).2.filterMap Incident.happening? =
      (f.notices uses).map Notice.happening := by
  induction uses generalizing f with
  | nil => rfl
  | cons first others ih =>
    have whole : (f.uses (first :: others)).2 =
        (f.use first).2 ++ ((f.use first).1.uses others).2 := rfl
    rw [whole, List.filterMap_append, ih]
    cases first with
    | receive chunk =>
      rw [happenings_use, notices, List.map_append]
      rfl
    | reset | clearCounters => rfl

/-! ## The log and the findings -/

private theorem incidentsOfBuffer_eq (f : Framer) (consistent : f.Consistent)
    (inside : f.position ≤ f.buffer.length) :
    f.incidentsOfBuffer = f.account.log (scan 0 f.buffer).1 := by
  induction f using incidentsOfBuffer.induct with
  | case1 f more examined ih =>
    have progress := progress_examineNext consistent (List.getElem?_eq_getElem more)
    change Progress f examined at progress
    rw [incidentsOfBuffer, dif_pos more]
    change f.account.incidents (examined.1.account, examined.2) ++
      examined.1.incidentsOfBuffer = _
    clear_value examined
    cases progress with
    | @further next buffer account capacity position consistent =>
      have later := ih consistent (by simp only [buffer, position]; omega)
      rw [later, buffer, account, Account.incidents_self]
      rfl
    | @found finding at_front =>
      have later := ih (.inl rfl) (Nat.zero_le _)
      rw [later, scan_of_some at_front]
      rfl
  | case2 f done =>
    have settled : f.Settled := ⟨consistent, by omega⟩
    rw [incidentsOfBuffer, dif_neg done, scan_of_none settled.undecided]
    rfl

theorem incidentsOfBytes_eq {f : Framer} (settled : f.Settled) (bytes : Bytes) :
    f.incidentsOfBytes bytes = f.account.log (scan 0 (f.buffer ++ bytes)).1 := by
  induction bytes generalizing f with
  | nil =>
    rw [List.append_nil, scan_of_none settled.undecided]
    rfl
  | cons byte rest ih =>
    have read := reads_receiveByte settled byte
    have whole := scan_append (f.buffer ++ [byte]) rest
    have first := incidentsOfBuffer_eq { f with buffer := f.buffer ++ [byte] }
      (settled.consistent.append [byte]) (settled.inside [byte])
    have account := (Prod.ext_iff.mp read.heard).1
    simp only at account
    rw [← List.append_cons] at whole
    rw [incidentsOfBytes, first, ih read.settled, whole, read.buffer, account, Account.log_append]

/-! ## Framers in use -/

theorem settled_use {f : Framer} (settled : f.Settled) (use : Use) : (f.use use).1.Settled := by
  cases use with
  | receive chunk => exact (reads_receive settled chunk).settled
  | reset => exact settled_reset f
  | clearCounters => exact ⟨settled.consistent, settled.position⟩

theorem settled_uses {f : Framer} (settled : f.Settled) (uses : List Use) :
    (f.uses uses).1.Settled := by
  induction uses generalizing f with
  | nil => exact settled
  | cons first others ih => exact ih (settled_use settled first)

end Framer

end FramedLink.Framing
