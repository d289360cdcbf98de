import FramedLink.Proofs.Incidents
import FramedLink.Proofs.StreamCounts
import Mathlib.Data.List.DropRight

/-! # When a loss is noticed

A loss lasts until the next frame or reset, and is noticed once. A refused checksum is no loss by
itself, but the byte behind the first start byte never begins a frame, so a loss is noticed before
anything else is. Hence the counters, and whether a framer is in sync, can be told from its log:
`reports_uses`.
-/

namespace FramedLink.Framing

open FramedLink.Frame

/-! ## What the log tells -/

namespace Incident

def isFrame (p : Frame → Bool) : Incident → Bool
  | noticed (.frame f) => p f
  | _ => false

/-- A loss that was noticed before is over. -/
def Renews (incident : Incident) : Prop :=
  (∃ f, incident = noticed (.frame f)) ∨ incident = reset

/-- Nothing that comes later can be an answer to what came before. -/
def closes : Incident → Bool
  | noticed (.frame _) | returned => true
  | _ => false

end Incident

/-- An incident of the first kind stands in the log, and none of the second kind behind it. -/
def Since (p q : Incident → Prop) (log : List Incident) : Prop :=
  ∃ front incident back, log = front ++ incident :: back ∧ p incident ∧ ∀ later ∈ back, ¬ q later

/-- A loss was noticed that still lasts. -/
def Lost : List Incident → Prop := Since (· = .noticed .lost) Incident.Renews

/-- Something was noticed since the last reset, and the last of it was a frame. -/
def Synced : List Incident → Prop :=
  Since (∃ f, · = .noticed (.frame f)) fun later => later.happening? ≠ none ∨ later = .reset

/-- The part of the log behind the place where the counters were cleared last. -/
def sinceCleared (log : List Incident) : List Incident := log.rtakeWhile (· ≠ .cleared)

/-- The counters of a stream of so many bytes with this log. -/
def Counters.ofLog (bytes : Nat) (log : List Incident) : Counters where
  bytes
  dataFrames := log.countP (·.isFrame (!·.isControl))
  controlFrames := log.countP (·.isFrame Frame.isControl)
  crcErrors := log.count .refused
  resyncs := log.count (.noticed .lost)

/-- Where something was refused, a loss lasts already or is noticed before the next frame is and
before the chunk ends. -/
def Answered (log : List Incident) : Prop :=
  ∀ front back, log = front ++ .refused :: back →
    Lost front ∨ .noticed .lost ∈ back.takeWhile (!·.closes)

/-- A framer with this log gives notice of losses as it should, and shows what the log tells. -/
structure Framer.Reports (f : Framer) (log : List Incident) : Prop where
  /-- Between two notices of a loss there is one of a frame, or a reset. -/
  once : ∀ front between back,
    log = front ++ .noticed .lost :: between ++ .noticed .lost :: back →
      ∃ incident ∈ between, incident.Renews
  answered : Answered log
  counters : f.counters = .ofLog f.counters.bytes (sinceCleared log)
  inSync : f.inSync ↔ Synced log

/-! ## One more incident -/

section Concat

variable {log tail : List Incident} {incident : Incident}

theorem split_append {front back : List Incident}
    (whole : log ++ tail = front ++ incident :: back) :
    (∃ behind, log = front ++ incident :: behind ∧ back = behind ++ tail) ∨
      ∃ before, front = log ++ before ∧ tail = before ++ incident :: back := by
  obtain ⟨before, same, rest⟩ | ⟨behind, same, rest⟩ := List.append_eq_append_iff.mp whole
  · exact .inr ⟨before, same, rest⟩
  · cases behind with
    | nil => exact .inr ⟨[], by simpa using same.symm, rest.symm⟩
    | cons first behind =>
      obtain ⟨rfl, rfl⟩ := List.cons.inj rest
      exact .inl ⟨behind, same, rfl⟩

theorem split_concat {other : Incident} {front back : List Incident}
    (whole : log ++ [incident] = front ++ other :: back) :
    (∃ behind, log = front ++ other :: behind ∧ back = behind ++ [incident]) ∨
      front = log ∧ other = incident := by
  obtain old | ⟨before, rfl, alone⟩ := split_append whole
  · exact .inl old
  · obtain ⟨rfl, single⟩ | ⟨-, single⟩ := List.singleton_eq_append_iff.mp alone
    · cases single
      exact .inr ⟨List.append_nil _, rfl⟩
    · cases single

private theorem since_concat {p q : Incident → Prop} :
    Since p q (log ++ [incident]) ↔ p incident ∨ Since p q log ∧ ¬ q incident := by
  constructor
  · rintro ⟨front, first, back, whole, kind, none⟩
    obtain ⟨behind, rfl, rfl⟩ | ⟨-, rfl⟩ := split_concat whole
    · refine .inr ⟨⟨front, first, behind, rfl, kind, ?_⟩, none _ (by simp)⟩
      exact fun later among => none later (List.mem_append_left _ among)
    · exact .inl kind
  · rintro (kind | ⟨⟨front, first, back, rfl, kind, none⟩, still⟩)
    · exact ⟨log, incident, [], rfl, kind, nofun⟩
    · refine ⟨front, first, back ++ [incident], by simp, kind, fun later among => ?_⟩
      obtain among | alone := List.mem_append.mp among
      · exact none later among
      · rw [List.mem_singleton.mp alone]
        exact still

private theorem not_since_nil {p q : Incident → Prop} : ¬ Since p q [] := by
  rintro ⟨front, incident, back, none, -⟩
  simp at none

private theorem sinceCleared_concat (other : incident ≠ .cleared) :
    sinceCleared (log ++ [incident]) = sinceCleared log ++ [incident] :=
  List.rtakeWhile_concat_pos _ _ _ (by simpa using other)

private theorem answered_nil : Answered [] := by simp [Answered]

theorem answered_append (answered : Answered log)
    (new : ∀ front back, tail = front ++ .refused :: back →
      Lost (log ++ front) ∨ .noticed .lost ∈ back.takeWhile (!·.closes)) :
    Answered (log ++ tail) := by
  intro front back whole
  obtain ⟨behind, old, rfl⟩ | ⟨before, rfl, later⟩ := split_append whole
  · refine (answered front behind old).imp_right fun noticed => ?_
    rw [List.takeWhile_append]
    split
    · exact List.mem_append_left _ ((List.takeWhile_prefix _).subset noticed)
    · exact noticed
  · exact new before back later

theorem Answered.append (answered : Answered log) (none : .refused ∉ tail) :
    Answered (log ++ tail) :=
  answered_append answered fun front back split => absurd (by simp [split]) none

theorem Answered.refused (answered : Answered log) (none : .refused ∉ tail)
    (answer : Lost log ∨ .noticed .lost ∈ tail.takeWhile (!·.closes)) :
    Answered (log ++ .refused :: tail) := by
  refine answered_append answered fun front back split => ?_
  cases front with
  | nil =>
    obtain ⟨-, rfl⟩ := List.cons.inj split
    rwa [List.append_nil]
  | cons first front =>
    obtain ⟨-, same⟩ := List.cons.inj split
    exact absurd (by simp [same]) none

end Concat

/-! ## The account and the log -/

/-- The counters after a further incident. -/
def Counters.count (c : Counters) : Incident → Counters
  | .refused => { c with crcErrors := c.crcErrors + 1 }
  | .noticed .lost => { c with resyncs := c.resyncs + 1 }
  | .noticed (.frame (.data _)) => { c with dataFrames := c.dataFrames + 1 }
  | .noticed (.frame (.control _)) => { c with controlFrames := c.controlFrames + 1 }
  | .cleared => {}
  | .returned | .reset => c

private theorem Counters.count_eq_ofLog {c : Counters} {log : List Incident}
    (told : c = .ofLog c.bytes (sinceCleared log)) (incident : Incident) :
    c.count incident =
      .ofLog (c.count incident).bytes (sinceCleared (log ++ [incident])) := by
  by_cases cleared : incident = .cleared
  · subst cleared
    have none : sinceCleared (log ++ [.cleared]) = [] :=
      List.rtakeWhile_concat_neg _ _ _ (by simp)
    rw [none]
    rfl
  · have further (l : List Incident) :
        ofLog (c.count incident).bytes (l ++ [incident]) = (ofLog c.bytes l).count incident := by
      rcases incident with _ | ((f | f) | _) | _ | _ | _ <;>
        simp [ofLog, count, Incident.isFrame, Frame.isControl] at cleared ⊢
    rw [sinceCleared_concat cleared, further, ← told]

namespace Account

/-- The account after a further incident. -/
def hear (a : Account) (incident : Incident) : Account where
  counters := a.counters.count incident
  inSync :=
    match incident with
    | .noticed (.frame _) => true
    | .noticed .lost | .reset => false
    | .refused | .returned | .cleared => a.inSync
  lossNoticed :=
    match incident with
    | .noticed .lost => true
    | .noticed (.frame _) | .reset => false
    | .refused | .returned | .cleared => a.lossNoticed

/-- The account is what can be told from the log. -/
structure Tells (a : Account) (log : List Incident) : Prop where
  counters : a.counters = .ofLog a.counters.bytes (sinceCleared log)
  inSync : a.inSync ↔ Synced log
  lossNoticed : a.lossNoticed ↔ Lost log
  apart : a.lossNoticed → a.inSync = false
  /-- No loss is noticed while an earlier one lasts. -/
  once : ∀ front back, log = front ++ .noticed .lost :: back → ¬ Lost front

variable {a : Account} {log : List Incident}

private theorem tells_new : Tells {} [] where
  counters := rfl
  inSync := iff_of_false Bool.false_ne_true not_since_nil
  lossNoticed := iff_of_false Bool.false_ne_true not_since_nil
  apart := nofun
  once := by simp

theorem Tells.withBytes (h : a.Tells log) (bytes : Nat) : (a.withBytes bytes).Tells log where
  counters := congrArg (fun counters => { counters with bytes }) h.counters
  inSync := h.inSync
  lossNoticed := h.lossNoticed
  apart := h.apart
  once := h.once

theorem Tells.hear (h : a.Tells log) (incident : Incident)
    (new : incident = .noticed .lost → a.lossNoticed = false) :
    (a.hear incident).Tells (log ++ [incident]) where
  counters := Counters.count_eq_ofLog h.counters incident
  inSync := by
    rw [Synced, since_concat]
    have before := h.inSync
    rw [Synced] at before
    rcases incident with _ | (f | _) | _ | _ | _ <;>
      simp [Account.hear, Incident.happening?, before]
  lossNoticed := by
    rw [Lost, since_concat]
    have before := h.lossNoticed
    rw [Lost] at before
    rcases incident with _ | (f | _) | _ | _ | _ <;>
      simp [Account.hear, Incident.Renews, before]
  apart := by
    cases incident with
    | noticed happening => cases happening <;> simp [Account.hear]
    | reset => exact nofun
    | refused | returned | cleared => exact h.apart
  once := by
    intro front back whole
    obtain ⟨behind, old, -⟩ | ⟨rfl, rfl⟩ := split_concat whole
    · exact h.once front behind old
    · rw [← h.lossNoticed, new rfl]
      exact Bool.false_ne_true

/-! ## One finding -/

theorem incidents_takeFrame (a : Account) (frame : Frame) :
    a.incidents (a.takeFrame frame) = [.noticed (.frame frame)] := by
  cases frame <;> simp [incidents, takeFrame]

theorem incidents_takeLoss (a : Account) :
    a.incidents a.takeLoss = if a.lossNoticed then [] else [.noticed .lost] := by
  rw [takeLoss]
  split <;> simp [incidents]

theorem incidents_badType (a : Account) :
    a.incidents a.addError.takeLoss = .refused :: a.addError.incidents a.addError.takeLoss := by
  rw [takeLoss]
  split <;> simp [incidents, addError]

theorem Tells.takeLoss (h : a.Tells log) :
    a.takeLoss.1.Tells (log ++ a.incidents a.takeLoss) := by
  rw [incidents_takeLoss, Account.takeLoss]
  split
  · next noticed =>
    rw [List.append_nil]
    convert h using 1
    rw [← h.apart noticed]
  · next new => exact h.hear (.noticed .lost) fun _ => eq_false_of_ne_true new

theorem Tells.take (h : a.Tells log) (finding : Finding) :
    (a.take finding).1.Tells (log ++ a.incidents (a.take finding)) := by
  have error : a.addError.Tells (log ++ [.refused]) := h.hear .refused (by simp)
  rcases finding with f | flaw
  · have heard : a.hear (.noticed (.frame f)) = (a.takeFrame f).1 := by cases f <;> rfl
    rw [Account.take, incidents_takeFrame, ← heard]
    exact h.hear (.noticed (.frame f)) (by simp)
  · cases flaw with
    | noise => exact h.takeLoss
    | loneStart | idlePair =>
      rw [Account.take, incidents_self, List.append_nil]
      exact h
    | badType =>
      have lost := error.takeLoss
      rw [List.append_assoc, List.singleton_append] at lost
      rw [Account.take, incidents_badType]
      exact lost
    | badChecksum =>
      have refused : a.incidents (a.take (.flaw .badChecksum)) = [.refused] := by
        simp [incidents, Account.take, addError]
      rw [refused]
      exact error

/-- All findings but a bad checksum are answered at once. -/
theorem Tells.answered_take (h : a.Tells log) (answered : Answered log) {finding : Finding}
    (other : finding ≠ .flaw .badChecksum) :
    Answered (log ++ a.incidents (a.take finding)) := by
  rcases finding with f | flaw
  · rw [Account.take, incidents_takeFrame]
    exact answered.append (by simp)
  · cases flaw with
    | noise =>
      rw [Account.take, incidents_takeLoss]
      exact answered.append (by split <;> simp)
    | loneStart | idlePair =>
      rw [Account.take, incidents_self]
      exact answered.append (by simp)
    | badType =>
      have lasting : a.addError.lossNoticed ↔ Lost log := h.lossNoticed
      rw [Account.take, incidents_badType, incidents_takeLoss]
      refine answered.refused (by split <;> simp) ?_
      split
      · next noticed => exact .inl (lasting.mp noticed)
      · exact .inr (by simp [Incident.closes])
    | badChecksum => exact absurd rfl other

end Account

/-! ## All findings in a chunk -/

/-- Behind a bad checksum, the next finding is noise. -/
inductive Orderly : List Finding → Prop where
  | nil : Orderly []
  | other {finding : Finding} (other : finding ≠ .flaw .badChecksum) {rest : List Finding}
      (orderly : Orderly rest) : Orderly (finding :: rest)
  | badChecksum {rest : List Finding} (orderly : Orderly rest) :
      Orderly (.flaw .badChecksum :: .flaw .noise :: rest)

private theorem starts_of_badChecksum {bytes : Bytes}
    (found : examine bytes = some (.flaw .badChecksum)) :
    ∃ behind, bytes = start1 :: start2 :: behind := by
  cases place bytes with
  | empty | oneStart | bothStarts => cases found
  | noise h => simp [examine_noise h] at found
  | loneStart h => simp [examine_loneStart h] at found
  | idlePair => simp at found
  | badType h untyped => simp [examine_badType h untyped] at found
  | announced h =>
    obtain ⟨lead, behind, begins, -⟩ := h
    exact ⟨lead :: behind, begins⟩

private theorem orderly_scan (bytes : Bytes) : Orderly (scan 0 bytes).1 := by
  induction size : bytes.length using Nat.strongRecOn generalizing bytes with
  | _ n ih =>
    have further {m : Nat} (some : 0 < m) (inside : m ≤ bytes.length) :
        Orderly (scan 0 (bytes.drop m)).1 :=
      ih _ (by rw [List.length_drop]; omega) (bytes.drop m) rfl
    cases found : examine bytes with
    | none =>
      rw [scan_of_none found]
      exact .nil
    | some finding =>
      rw [scan_of_some found]
      by_cases bad : finding = .flaw .badChecksum
      · subst bad
        obtain ⟨behind, rfl⟩ := starts_of_badChecksum found
        have noise : examine (start2 :: behind) = some (.flaw .noise) :=
          examine_noise (by decide) behind
        have next : scan 0 (start2 :: behind) =
            (.flaw .noise :: (scan 0 behind).1, (scan 0 behind).2) := scan_of_some noise
        change Orderly (.flaw .badChecksum :: (scan 0 (start2 :: behind)).1)
        rw [next]
        exact .badChecksum (further (m := 2) (by decide) (by simp))
      · exact .other bad (further finding.length_pos (length_le_of_examine found))

namespace Account

variable {a : Account} {log : List Incident}

/-- Of a bad checksum and the noise behind it, the log is that of a bad type code. -/
theorem log_badChecksum (a : Account) (rest : List Finding) :
    a.log (.flaw .badChecksum :: .flaw .noise :: rest) = a.log (.flaw .badType :: rest) := by
  have refused : a.incidents (a.addError, none) = [.refused] := by simp [incidents, addError]
  simp only [Account.log, take, refused, incidents_badType]
  rfl

private theorem tells_log {findings : List Finding} (orderly : Orderly findings) (h : a.Tells log)
    (answered : Answered log) :
    (a.takeAll findings).1.Tells (log ++ a.log findings) ∧ Answered (log ++ a.log findings) := by
  induction orderly generalizing a log with
  | nil =>
    rw [Account.log, List.append_nil]
    exact ⟨h, answered⟩
  | @other finding other rest _ ih =>
    have later := ih (h.take finding) (h.answered_take answered other)
    rw [List.append_assoc] at later
    exact later
  | @badChecksum rest _ ih =>
    have later := ih (h.take (.flaw .badType)) (h.answered_take answered (by simp))
    rw [List.append_assoc] at later
    rw [log_badChecksum]
    exact later

end Account

/-! ## Framers in use -/

namespace Framer

private theorem tells_use {f : Framer} {log : List Incident} (settled : f.Settled)
    (h : f.account.Tells log) (answered : Answered log) (use : Use) :
    (f.use use).1.account.Tells (log ++ (f.use use).2) ∧ Answered (log ++ (f.use use).2) := by
  cases use with
  | reset =>
    have none : .refused ∉ [Incident.reset] := by simp
    exact ⟨h.hear .reset nofun, answered.append none⟩
  | clearCounters =>
    have none : .refused ∉ [Incident.cleared] := by simp
    exact ⟨h.hear .cleared nofun, answered.append none⟩
  | receive chunk =>
    let counted := f.withBytes (f.counters.bytes + chunk.length)
    have ready : counted.Settled := ⟨settled.consistent, settled.position⟩
    have account : (f.receive chunk).1.account =
        (counted.account.takeAll (scan 0 (f.buffer ++ chunk)).1).1 :=
      (Prod.ext_iff.mp (reads_receive settled chunk).heard).1
    have same : counted.incidentsOfBytes chunk =
        counted.account.log (scan 0 (f.buffer ++ chunk)).1 := incidentsOfBytes_eq ready chunk
    obtain ⟨told, answered⟩ :=
      Account.tells_log (orderly_scan (f.buffer ++ chunk)) (h.withBytes _) answered
    change (f.receive chunk).1.account.Tells
        (log ++ (counted.incidentsOfBytes chunk ++ [.returned])) ∧
      Answered (log ++ (counted.incidentsOfBytes chunk ++ [.returned]))
    rw [account, same, ← List.append_assoc]
    exact ⟨told.hear .returned nofun, answered.append (by simp)⟩

theorem tells_uses {f : Framer} {log : List Incident} (settled : f.Settled)
    (h : f.account.Tells log) (answered : Answered log) (uses : List Use) :
    (f.uses uses).1.account.Tells (log ++ (f.uses uses).2) ∧ Answered (log ++ (f.uses uses).2) := by
  induction uses generalizing f log with
  | nil =>
    rw [Framer.uses, List.append_nil]
    exact ⟨h, answered⟩
  | cons first others ih =>
    obtain ⟨told, answered⟩ := tells_use settled h answered first
    have later := ih (settled_use settled first) told answered
    rw [List.append_assoc] at later
    exact later

/-- However a new framer is used, its log holds all that was noticed and tells its counters and
whether it is in sync; each loss is noticed once, and nothing is refused without notice of a
loss. -/
theorem reports_uses (capacity : Nat) (uses : List Use) :
    let (f, log) := (ofCapacity capacity).uses uses
    log.filterMap Incident.happening? =
        ((ofCapacity capacity).notices uses).map Notice.happening ∧
      f.Reports log := by
  obtain ⟨told, answered⟩ := tells_uses (settled_ofCapacity capacity) Account.tells_new answered_nil
    uses
  refine ⟨happenings_uses _ uses, ?_, answered, told.counters, told.inSync⟩
  intro front between back whole
  by_contra none
  push Not at none
  exact told.once (front ++ .noticed .lost :: between) back whole
    ⟨front, .noticed .lost, between, rfl, rfl, none⟩

end Framer

end FramedLink.Framing
