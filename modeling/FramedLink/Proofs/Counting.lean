import Mathlib.Data.Finset.Card
import FramedLink.Proofs.Meeting
import FramedLink.Proofs.Reception
import FramedLink.Proofs.StreamCounts
import FramedLink.Proofs.Transmission

/-! # What a link counts

The counters of a link are kept in two places, by the link and by its framer, and change at many
points in the course of an act. After each act they say what has happened since they began anew:
what was handed over, what was accepted and what became of it, and what was found in the bytes that
were received. While the layer above is told of a frame, they are those of that very frame.
-/

namespace FramedLink

open FramedLink.Frame FramedLink.Framing FramedLink.Journal

variable {δ υ ω α : Type}

/-! ## Since the counters began anew -/

/-- The entries since the counters began anew. -/
def Journal.recent : List (Entry ω) → List (Entry ω)
  | [] => []
  | .restarted :: _ => []
  | entry :: earlier => entry :: recent earlier

/-- The data frames that were handed over since the counters began anew: the epoch and the place at
which each was accepted, oldest first. -/
def Journal.departures : List (Entry ω) → List (Nat × Nat)
  | [] => []
  | .restarted :: _ => []
  | .going place :: earlier => departures earlier ++ [(clears earlier, place)]
  | _ :: earlier => departures earlier

theorem Journal.departures_cons {entry : Entry ω} (quiet : entry.Quiet)
    (ongoing : entry ≠ .restarted) (earlier : List (Entry ω)) :
    departures (entry :: earlier) = departures earlier := by
  rcases entry with (_ | _ | _ | _) | _ | _ | _ | _ | _ <;>
    first | rfl | exact absurd rfl ongoing | exact absurd trivial quiet

private theorem Journal.recent_cons {entry : Entry ω} (ongoing : entry ≠ .restarted)
    (earlier : List (Entry ω)) : recent (entry :: earlier) = entry :: recent earlier := by
  rcases entry with (_ | _ | _ | _) | _ | _ | _ | _ | _ <;>
    first | rfl | exact absurd rfl ongoing

/-- The frames that were handed over since the counters began anew: of a data frame the place at
which it was accepted is written down, and then its image, of a control frame its image. -/
inductive Goes : List (Entry ω) → List Frame → Prop where
  | nothing : Goes [] []
  | data {earlier : List (Entry ω)} {frames : List Frame} {metadata place : Nat} {payload : Bytes}
      (before : Goes earlier frames)
      (accepted : (present earlier).sends[place]? = some (metadata, payload))
      (valid : (Frame.data ⟨place % FrameId.space, metadata, payload⟩).Valid) :
      Goes (.left (.handed (DataFrame.image ⟨place % FrameId.space, metadata, payload⟩)) ::
          .going place :: earlier)
        (frames ++ [.data ⟨place % FrameId.space, metadata, payload⟩])
  | control {earlier : List (Entry ω)} {frames : List Frame} {f : ControlFrame}
      (before : Goes earlier frames) (small : f.id ≤ maxId) :
      Goes (.left (.handed f.image) :: earlier) (frames ++ [.control f])
  | restarted (earlier : List (Entry ω)) : Goes (.restarted :: earlier) []
  | other {earlier : List (Entry ω)} {frames : List Frame} {entry : Entry ω}
      (before : Goes earlier frames) (quiet : entry.Quiet) (ongoing : entry ≠ .restarted) :
      Goes (entry :: earlier) frames

namespace Goes

variable {journal : List (Entry ω)} {frames : List Frame}

theorem valid (h : Goes journal frames) : ∀ f ∈ frames, f.Valid := by
  induction h with
  | nothing => nofun
  | data _ _ valid ih =>
    intro f among
    rcases List.mem_append.mp among with before | here
    · exact ih f before
    · rw [List.mem_singleton.mp here]
      exact valid
  | control _ small ih =>
    intro f among
    rcases List.mem_append.mp among with before | here
    · exact ih f before
    · rw [List.mem_singleton.mp here]
      exact small
  | restarted => nofun
  | other _ _ _ ih => exact ih

private theorem handed_recent (h : Goes journal frames) :
    handed (recent journal) = frames.map Frame.image := by
  induction h with
  | nothing => rfl
  | data _ _ _ ih =>
    rw [List.map_append, ← ih]
    rfl
  | control _ _ ih =>
    rw [List.map_append, ← ih]
    rfl
  | restarted => rfl
  | other _ quiet ongoing ih => rw [recent_cons ongoing, handed_cons_of_quiet quiet, ih]

private theorem frames_eq (h : Goes journal frames) :
    frames = greedyDecode (handed (recent journal)).flatten := by
  rw [h.handed_recent, ← frames_scan, scan_images h.valid]
  simp only [List.filterMap_map]
  exact (List.filterMap_some).symm

private theorem length_departures (h : Goes journal frames) :
    (departures journal).length = frames.countP (!·.isControl) := by
  induction h with
  | nothing => rfl
  | @data earlier frames metadata place payload _ _ _ ih =>
    show (departures earlier ++ [(clears earlier, place)]).length = _
    rw [List.length_append, List.countP_append, ih]
    rfl
  | control _ _ ih =>
    rw [List.countP_append]
    exact ih
  | restarted => rfl
  | other _ quiet ongoing ih => rw [departures_cons quiet ongoing, ih]

end Goes

/-! ## What is handed over -/

/-- The control frames handed over are counted, and of the data frames those that had gone out
before. -/
structure Sendings (journal : List (Entry ω)) (controls again : Nat) (frames : List Frame) :
    Prop where
  goes : Goes journal frames
  present : ∀ place, place ∈ gone journal ↔ (clears journal, place) ∈ departures journal
  past : ∀ passed ∈ departures journal, passed.1 ≤ clears journal
  controls : controls = frames.countP Frame.isControl
  again : again + (departures journal).toFinset.card = (departures journal).length

namespace Sendings

variable {journal : List (Entry ω)} {controls again : Nat} {frames : List Frame}

theorem nothing : Sendings ([] : List (Entry ω)) 0 0 [] :=
  ⟨.nothing, fun _ => ⟨nofun, nofun⟩, nofun, rfl, rfl⟩

theorem other (h : Sendings journal controls again frames) {entry : Entry ω}
    (quiet : entry.Quiet) (ongoing : entry ≠ .restarted)
    (epoch : clears (entry :: journal) = clears journal) :
    Sendings (entry :: journal) controls again frames where
  goes := .other h.goes quiet ongoing
  present := by
    rw [gone_quiet quiet epoch, departures_cons quiet ongoing, epoch]
    exact h.present
  past := by
    rw [departures_cons quiet ongoing, epoch]
    exact h.past
  controls := h.controls
  again := by
    rw [departures_cons quiet ongoing]
    exact h.again

theorem control (h : Sendings journal controls again frames) {f : ControlFrame}
    (small : f.id ≤ maxId) :
    Sendings (.left (.handed f.image) :: journal) (controls + 1) again
      (frames ++ [.control f]) where
  goes := .control h.goes small
  present := by
    rw [gone_handed]
    exact h.present
  past := h.past
  controls := by
    rw [List.countP_append, ← h.controls]
    rfl
  again := h.again

theorem data (h : Sendings journal controls again frames) {place attempts : Nat} {bytes : Bytes}
    (accepted : AcceptedAs (Journal.present journal).sends place bytes)
    (known : place ∈ gone journal ↔ 0 < attempts) :
    ∃ f, Sendings (.left (.handed bytes) :: .going place :: journal) controls
      (again + if 0 < attempts then 1 else 0) (frames ++ [f]) := by
  obtain ⟨metadata, payload, sent, valid, rfl⟩ := accepted
  let bytes := DataFrame.image ⟨place % FrameId.space, metadata, payload⟩
  have more : departures (.left (.handed bytes) :: .going place :: journal) =
      departures journal ++ [(clears journal, place)] := rfl
  have epoch : clears (.left (.handed bytes) :: .going place :: journal) = clears journal := rfl
  refine ⟨_, .data h.goes sent valid, ?_, ?_, ?_, ?_⟩
  · intro other
    rw [more, epoch, gone_data]
    simp only [List.mem_append, List.mem_singleton, Prod.mk.injEq, h.present]
    exact or_congr Iff.rfl (and_iff_right trivial).symm
  · rw [more, epoch]
    intro passed among
    rcases List.mem_append.mp among with before | here
    · exact h.past passed before
    · rw [List.mem_singleton.mp here]
  · rw [List.countP_append, ← h.controls]
    rfl
  · have again := h.again
    rw [more, List.toFinset_append, List.length_append, ← again]
    by_cases tried : 0 < attempts
    · have inside := List.mem_toFinset.mpr ((h.present place).mp (known.mpr tried))
      have same : (departures journal).toFinset ∪ [(clears journal, place)].toFinset =
          (departures journal).toFinset := by
        simpa using inside
      rw [if_pos tried, same]
      simp only [List.length_singleton]
      omega
    · have outside : (clears journal, place) ∉ (departures journal).toFinset := fun inside =>
        tried (known.mp ((h.present place).mpr (List.mem_toFinset.mp inside)))
      have more : ((departures journal).toFinset ∪ [(clears journal, place)].toFinset).card =
          (departures journal).toFinset.card + 1 := by
        rw [Finset.union_comm]
        exact Finset.card_insert_of_notMem outside
      rw [if_neg tried, more]
      simp only [List.length_singleton]
      omega

theorem clear (h : Sendings journal controls again frames) :
    Sendings (.cleared :: journal) controls again frames where
  goes := .other h.goes Entry.quiet_cleared nofun
  present := by
    intro place
    rw [gone_cleared]
    refine ⟨nofun, fun among => ?_⟩
    have before : clears journal + 1 ≤ clears journal := h.past _ among
    omega
  past := fun passed among => Nat.le_succ_of_le (h.past passed among)
  controls := h.controls
  again := h.again

theorem restart (none : gone journal = []) : Sendings (.restarted :: journal) 0 0 [] where
  goes := .restarted journal
  present := by
    intro place
    have quiet : (.restarted : Entry ω).Quiet := not_false
    rw [gone_quiet quiet rfl, none]
    exact ⟨nofun, nofun⟩
  past := nofun
  controls := rfl
  again := rfl

end Sendings

namespace LinkState

/-- What is handed over is counted. -/
def CountsSendings (s : LinkState δ ω) : Prop :=
  s.Traces ∧ ∃ frames,
    Sendings s.journal s.status.tx.controlFrames s.status.tx.retransmissions frames

theorem countsSendings_ofConfig (config : Config) (driver : δ) :
    (LinkState.ofConfig config driver : LinkState δ ω).CountsSendings :=
  ⟨traces_ofConfig config driver, [], .nothing⟩

namespace CountsSendings

variable {s s' : LinkState δ ω}

theorem emission [Driver δ] (h : s.CountsSendings) (emission : Emission s s') :
    s'.CountsSendings := by
  obtain ⟨traces, frames, sendings⟩ := h
  refine ⟨traces.emission emission, ?_⟩
  obtain ⟨numbered, tracing⟩ := traces
  cases emission with
  | @handControl f rest first =>
    have small := numbered.waiting f (by rw [first]; exact List.mem_cons_self)
    exact ⟨_, sendings.control small⟩
  | @handData sent rest f now _ split before =>
    have traced := tracing.traced f (by simp [split])
    obtain ⟨_, counted⟩ := sendings.data traced.accepted traced.attempts
    exact ⟨_, counted⟩
  | accept => exact ⟨frames, sendings.other (Entry.quiet_accepted _ _) nofun rfl⟩
  | remark => exact ⟨frames, sendings.other not_false nofun rfl⟩

theorem reaction {happening : Happening} {calls : List Call} (h : s.CountsSendings)
    (reaction : Reaction s happening s' calls) : s'.CountsSendings := by
  obtain ⟨traces, frames, sendings⟩ := h
  refine ⟨traces.reaction reaction, frames, ?_⟩
  cases reaction with
  | accept => exact sendings
  | again => exact sendings
  | ask => exact sendings
  | pass => exact sendings
  | keep => exact sendings
  | release => exact sendings.other not_false nofun rfl
  | resume => exact sendings.other not_false nofun rfl
  | request => exact sendings.clear
  | response => exact sendings
  | lost => exact sendings

theorem log (h : s.CountsSendings) (call : Call) : (s.log call.action).CountsSendings := by
  obtain ⟨traces, frames, sendings⟩ := h
  refine ⟨traces.log call, frames, ?_⟩
  cases call with
  | event => exact sendings.other not_false nofun rfl
  | data => exact sendings.other not_false nofun rfl

theorem rewind (h : s.CountsSendings) :
    { s with window := s.window.rewind }.CountsSendings :=
  ⟨h.1.rewind, h.2⟩

theorem restarted (h : s.CountsSendings) : s.restarted.CountsSendings :=
  ⟨h.1.restarted, [], .restart (gone_cleared s.journal)⟩

end CountsSendings

theorem lasting_countsSendings [Driver δ] (upper : Upper υ ω) :
    Lasting upper fun _ (s : LinkState δ ω) => s.CountsSendings where
  emission emission counts := counts.emission emission
  reaction reaction counts := counts.reaction reaction
  told call counts := counts.log call
  counted _ counts := counts
  disconnected counts := counts
  rewind counts := counts.rewind
  restarted counts := counts.restarted
  driver _ counts := counts

/-! ## What is accepted, released and delivered -/

end LinkState

/-- A data frame is delivered. -/
def Call.isData : Call → Bool
  | data _ _ => true
  | event _ => false

/-- The peer asks to begin anew. -/
def Framing.Happening.asksReset : Happening → Bool
  | .frame (.control f) => f.control = .reset ∧ f.id = LinkState.resetRequest
  | _ => false

namespace LinkState

/-- The bytes handed over, the frames released and the frames delivered are counted, and of the
frames that are still to be delivered it is known that they are counted already. -/
structure Accounts (due : List Call) (s : LinkState δ ω) : Prop where
  bytes : s.status.tx.bytes = (handed (recent s.journal)).flatten.length
  released : s.status.tx.dataFrames = (tally (recent s.journal)).releases
  delivered : s.status.rx.dataFrames =
    (tally (recent s.journal)).deliveries.length + due.countP Call.isData

/-- So many of the frames accepted were discarded at requests of the peer, and the others were
released or are in the window. -/
def Balanced (discarded : Nat) (s : LinkState δ ω) : Prop :=
  (tally (recent s.journal)).sends.length =
    s.status.tx.dataFrames + s.window.length + discarded

variable {due : List Call} {s s' : LinkState δ ω}

theorem Accounts.hand [Driver δ] (h : s.Accounts due) (bytes : Bytes) :
    (s.hand bytes).Accounts due where
  bytes := by
    have handed : (handed (recent (s.hand bytes).journal)).flatten.length =
        (handed (recent s.journal)).flatten.length + bytes.length := by
      show (handed (recent s.journal) ++ [bytes]).flatten.length = _
      rw [List.flatten_append, List.length_append, List.flatten_singleton]
    rw [handed, ← h.bytes]
    rfl
  released := h.released
  delivered := h.delivered

theorem Accounts.emission [Driver δ] (h : s.Accounts due) (emission : Emission s s') :
    s'.Accounts due := by
  cases emission with
  | @handControl f =>
    have handed := h.hand f.image
    exact ⟨handed.bytes, handed.released, handed.delivered⟩
  | @handData _ _ f =>
    have handed := h.hand f.image
    exact ⟨handed.bytes, handed.released, handed.delivered⟩
  | accept => exact ⟨h.bytes, h.released, h.delivered⟩
  | remark => exact ⟨h.bytes, h.released, h.delivered⟩

theorem Accounts.reaction {happening : Happening} {calls : List Call} (h : s.Accounts [])
    (reaction : Reaction s happening s' calls) : s'.Accounts calls := by
  cases reaction with
  | accept => exact ⟨h.bytes, h.released, congrArg (· + 1) h.delivered⟩
  | again => exact ⟨h.bytes, h.released, h.delivered⟩
  | ask => exact ⟨h.bytes, h.released, h.delivered⟩
  | pass => exact ⟨h.bytes, h.released, h.delivered⟩
  | keep => exact ⟨h.bytes, h.released, h.delivered⟩
  | release => exact ⟨h.bytes, congrArg (· + _) h.released, h.delivered⟩
  | resume => exact ⟨h.bytes, congrArg (· + _) h.released, h.delivered⟩
  | request => exact ⟨h.bytes, h.released, h.delivered⟩
  | response => exact ⟨h.bytes, h.released, h.delivered⟩
  | lost => exact ⟨h.bytes, h.released, h.delivered⟩

theorem Accounts.log {call : Call} (h : s.Accounts (call :: due)) :
    (s.log call.action).Accounts due := by
  cases call with
  | event => exact ⟨h.bytes, h.released, h.delivered⟩
  | data metadata payload =>
    refine ⟨h.bytes, h.released, h.delivered.trans ?_⟩
    have one : (Call.data metadata payload :: due).countP Call.isData =
        due.countP Call.isData + 1 := List.countP_cons_of_pos rfl
    have more : (tally (recent (s.log (Call.data metadata payload).action).journal)).deliveries =
        (tally (recent s.journal)).deliveries ++ [(metadata, payload)] := rfl
    rw [one, more, List.length_append, Nat.add_right_comm]
    rfl

theorem enduring_accounts [Driver δ] (upper : Upper υ ω) :
    Enduring upper fun due _ (s : LinkState δ ω) => s.Accounts due where
  utterance utterance h := utterance.emits.keep (fun emission h => h.emission emission) h
  reaction reaction h := h.reaction reaction
  told _ _ h := h.log
  counted _ h := ⟨h.bytes, h.released, h.delivered⟩
  disconnected _ h := ⟨h.bytes, h.released, h.delivered⟩
  rewind h := ⟨h.bytes, h.released, h.delivered⟩
  restarted _ := ⟨rfl, rfl, rfl⟩

/-! ## What is discarded -/

/-- The frames that are discarded while these notices are taken, because the peer asks to begin
anew. -/
def discards [Driver δ] (upper : Upper υ ω) : υ × LinkState δ ω → List Notice → Nat
  | _, [] => 0
  | us, notice :: rest =>
    (if notice.happening.asksReset then us.2.window.length else 0) +
      discards upper (takeNotice upper us notice) rest

variable {discarded : Nat}

theorem Balanced.emission [Driver δ] (h : s.Balanced discarded) (emission : Emission s s') :
    s'.Balanced discarded := by
  cases emission with
  | handControl => exact h
  | @handData sent rest f now _ frames =>
    have length : s.window.length = (sent ++ f.markSent now :: rest).length := by
      rw [SendWindow.length, frames, List.length_append, List.length_append]
      rfl
    unfold Balanced at h
    rw [length] at h
    exact h
  | @accept metadata payload window _ _ _ _ pushed =>
    have more : (tally (recent s.journal)).sends.length + 1 =
        s.status.tx.dataFrames + window.length + discarded := by
      have length := SendWindow.length_push pushed
      unfold Balanced at h
      omega
    exact List.length_append.trans more
  | remark => exact h

/-- A reaction discards the whole window if the peer asks to begin anew, and nothing if not. -/
theorem Balanced.reaction {happening : Happening} {calls : List Call} (h : s.Balanced discarded)
    (reaction : Reaction s happening s' calls) :
    s'.Balanced (discarded + if happening.asksReset then s.window.length else 0) := by
  have balance : (tally (recent s.journal)).sends.length =
    s.status.tx.dataFrames + s.window.length + discarded := h
  have answered (f : ControlFrame) :
      (s.window.answer f).1 + (s.window.answer f).2.length = s.window.length := by
    obtain ⟨released, kept, parts, count, same⟩ := s.window.answer_cases f
    rw [count, ← parts.length]
    rcases same with same | same
    · rw [same]
      rfl
    · rw [same, SendWindow.length_rewind]
      rfl
  have no {f : ControlFrame} (other : ¬ (f.control = .reset ∧ f.id = resetRequest)) :
      (Happening.frame (.control f)).asksReset = false := decide_eq_false other
  have released {f : ControlFrame} : (tally (recent s.journal)).sends.length =
      s.status.tx.dataFrames + (s.window.answer f).1 + (s.window.answer f).2.length +
        discarded := by
    rw [Nat.add_assoc s.status.tx.dataFrames, answered, balance]
  cases reaction with
  | accept => exact h
  | again => exact h
  | ask => exact h
  | pass => exact h
  | @keep f answer none =>
    have kept := @released f
    rw [none] at kept
    rw [no fun both => answer both.1]
    exact kept
  | release answer =>
    rw [no fun both => answer both.1]
    exact released
  | resume answer =>
    rw [no fun both => answer both.1]
    exact released
  | @request f reset asks =>
    have yes : (Happening.frame (.control f)).asksReset = true := decide_eq_true ⟨reset, asks⟩
    rw [yes, if_pos rfl]
    refine balance.trans ?_
    rw [Nat.add_assoc, Nat.add_comm s.window.length]
    rfl
  | response reset answers =>
    rw [no fun both => answers both.2]
    exact h
  | lost => exact h

theorem Balanced.log (h : s.Balanced discarded) (call : Call) :
    (s.log call.action).Balanced discarded := by
  cases call with
  | event => exact h
  | data => exact h

theorem Balanced.takeNotices [Driver δ] (upper : Upper υ ω) (notices : List Notice)
    (us : υ × LinkState δ ω) (h : us.2.Balanced discarded) :
    (notices.foldl (takeNotice upper) us).2.Balanced (discarded + discards upper us notices) := by
  induction notices generalizing us discarded with
  | nil => exact h
  | cons notice rest ih =>
    obtain ⟨s', calls, reaction, same⟩ := reaction_takeNotice upper us.1 us.2 notice
    have taken : (takeNotice upper us notice).2.Balanced
        (discarded + if notice.happening.asksReset then us.2.window.length else 0) := by
      rw [show us = (us.1, us.2) from rfl, same]
      have counted :
          { us.2 with status := us.2.status.withCounters notice.counters }.Balanced discarded := h
      exact keep_tellAll (fun emission h => h.emission emission) (fun call h => h.log call) upper
        calls (us.1, s') (counted.reaction reaction)
    have later := ih _ taken
    rw [Nat.add_assoc] at later
    exact later

theorem Balanced.checkTimeout [Driver δ] (upper : Upper υ ω) (u : υ) (h : s.Balanced discarded) :
    (s.checkTimeout upper u).2.Balanced discarded := by
  have rewind {s : LinkState δ ω} (h : s.Balanced discarded) :
      { s with window := s.window.rewind }.Balanced discarded := by
    unfold Balanced
    rw [SendWindow.length_rewind]
    exact h
  exact keep_checkTimeout (fun emission h => h.emission emission) (fun call h => h.log call)
    (fun h => h) rewind upper u h

/-! ## What is received -/

/-- The status shows these counters of the framer. -/
structure Shows (counters : Counters) (s : LinkState δ ω) : Prop where
  bytes : s.status.rx.bytes = counters.bytes
  controlFrames : s.status.rx.controlFrames = counters.controlFrames
  crcErrors : s.status.rx.crcErrors = counters.crcErrors
  resyncs : s.status.rx.resyncs = counters.resyncs

namespace Shows

variable {counters : Counters}

theorem counted (counters : Counters) (s : LinkState δ ω) :
    Shows counters { s with status := s.status.withCounters counters } := ⟨rfl, rfl, rfl, rfl⟩

theorem emission [Driver δ] (h : Shows counters s) (emission : Emission s s') :
    Shows counters s' := by
  cases emission with
  | handControl => exact ⟨h.bytes, h.controlFrames, h.crcErrors, h.resyncs⟩
  | handData => exact ⟨h.bytes, h.controlFrames, h.crcErrors, h.resyncs⟩
  | accept => exact ⟨h.bytes, h.controlFrames, h.crcErrors, h.resyncs⟩
  | remark => exact ⟨h.bytes, h.controlFrames, h.crcErrors, h.resyncs⟩

theorem log (h : Shows counters s) (call : Call) : Shows counters (s.log call.action) :=
  ⟨h.bytes, h.controlFrames, h.crcErrors, h.resyncs⟩

theorem reaction {happening : Happening} {calls : List Call} (h : Shows counters s)
    (reaction : Reaction s happening s' calls) : Shows counters s' := by
  cases reaction with
  | _ => exact ⟨h.bytes, h.controlFrames, h.crcErrors, h.resyncs⟩

theorem checkTimeout [Driver δ] (upper : Upper υ ω) (u : υ) (h : Shows counters s) :
    Shows counters (s.checkTimeout upper u).2 :=
  keep_checkTimeout (fun emission h => h.emission emission) (fun call h => h.log call)
    (fun h => ⟨h.bytes, h.controlFrames, h.crcErrors, h.resyncs⟩)
    (fun h => ⟨h.bytes, h.controlFrames, h.crcErrors, h.resyncs⟩) upper u h

end Shows

end LinkState

/-! ## Runs -/

/-- What was received since a link was begun anew last, after one more act. -/
def Act.heard (bytes : Bytes) : Act δ → Bytes
  | .reset => []
  | act => bytes ++ act.bytes

/-- The bytes that were received since a link was begun anew last. -/
def receivedLately (acts : List (Act δ)) : Bytes := acts.foldl Act.heard []

namespace Link

variable [Driver δ] (upper : Upper υ ω)

/-- The frames of the window that were discarded at requests of the peer since the counters began
anew, after these acts, if so many were before. -/
def discarded : υ × Link δ ω → Nat → List (Act δ) → Nat
  | _, before, [] => before
  | ul, before, .receive chunk :: rest =>
    discarded (act upper ul (.receive chunk))
      (before + LinkState.discards upper (ul.1, ul.2.state) (ul.2.framer.receive chunk).2) rest
  | ul, _, .reset :: rest => discarded (act upper ul .reset) 0 rest
  | ul, before, act :: rest => discarded (Link.act upper ul act) before rest

theorem balanced_acts (acts : List (Act δ)) (ul : υ × Link δ ω) {before : Nat}
    (h : ul.2.state.Balanced before) :
    (Link.acts upper ul acts).2.state.Balanced (discarded upper ul before acts) := by
  have emits {discarded : Nat} {s s' : LinkState δ ω} (emits : LinkState.Emits s s')
      (h : s.Balanced discarded) : s'.Balanced discarded :=
    emits.keep (fun emission h => h.emission emission) h
  induction acts generalizing ul before with
  | nil => exact h
  | cons act rest ih =>
    cases act with
    | send metadata payload => exact ih _ (emits (LinkState.emits_send _ _ _) h)
    | receive chunk =>
      have taken := h.takeNotices upper (ul.2.framer.receive chunk).2 (ul.1, ul.2.state)
      exact ih _ (emits (LinkState.emits_flush _) taken)
    | process => exact ih _ ((emits (LinkState.emits_flush _) h).checkTimeout upper ul.1)
    | reset =>
      have anew : ul.2.state.restarted.Balanced 0 := rfl
      exact ih _ (emits (LinkState.emits_flush _) anew)
    | tune driver => exact ih _ h

/-- The framer has counted what was received since the link was begun anew, and the status of the
link shows it. -/
structure Reports (l : Link δ ω) (bytes : Bytes) : Prop where
  framer : l.framer.Counted bytes
  shows : l.state.Shows l.framer.counters

variable {upper}

theorem Reports.act {ul : υ × Link δ ω} {bytes : Bytes} (h : ul.2.Reports bytes) (act : Act δ) :
    (Link.act upper ul act).2.Reports (act.heard bytes) := by
  have emits {counters : Counters} {s s' : LinkState δ ω} (emits : LinkState.Emits s s')
      (h : s.Shows counters) : s'.Shows counters :=
    emits.keep (fun emission h => h.emission emission) h
  have same : ul.2.framer.Counted (bytes ++ []) := by
    rw [List.append_nil]
    exact h.framer
  cases act with
  | send metadata payload => exact ⟨same, emits (LinkState.emits_send _ _ _) h.shows⟩
  | receive chunk =>
    exact ⟨h.framer.receive chunk, emits (LinkState.emits_flush _) (.counted _ _)⟩
  | process => exact ⟨same, (emits (LinkState.emits_flush _) h.shows).checkTimeout upper ul.1⟩
  | reset =>
    have anew : ul.2.framer.reset.clearCounters.Counted [] := by
      rw [Framer.clearCounters_reset]
      exact .new _
    have shows : ul.2.state.restarted.Shows ul.2.framer.reset.clearCounters.counters :=
      ⟨rfl, rfl, rfl, rfl⟩
    exact ⟨anew, emits (LinkState.emits_flush _) shows⟩
  | tune driver =>
    have shows := h.shows
    exact ⟨same, shows.bytes, shows.controlFrames, shows.crcErrors, shows.resyncs⟩

theorem Reports.acts (acts : List (Act δ)) {ul : υ × Link δ ω} {bytes : Bytes}
    (h : ul.2.Reports bytes) :
    (Link.acts upper ul acts).2.Reports (acts.foldl Act.heard bytes) := by
  induction acts generalizing ul bytes with
  | nil => exact h
  | cons act rest ih => exact ih (h.act act)

omit [Driver δ] in
/-- The layer above is called only because of a frame. -/
theorem frame_of_reaction {s s' : LinkState δ ω} {happening : Happening} {told rest : List Call}
    {call : Call} (reaction : LinkState.Reaction s happening s' (told ++ call :: rest)) :
    ∃ f, happening = .frame f := by
  cases happening with
  | frame f => exact ⟨f, rfl⟩
  | lost =>
    generalize calls : told ++ call :: rest = all at reaction
    cases reaction
    simp at calls

/-- Wherever the layer above meets the link while it is told of a frame, the status shows the
counters of the stream up to this frame, with all the bytes of the chunk. -/
theorem shows_call {ul : υ × Link δ ω} {bytes chunk : Bytes} (h : ul.2.Reports bytes)
    {earlier later : List Notice} {notice : Notice}
    (noticed : (ul.2.framer.receive chunk).2 = earlier ++ notice :: later)
    {us : υ × LinkState δ ω} {s : LinkState δ ω} {told rest : List Call} {call : Call}
    (reaction : LinkState.Reaction
      { us.2 with status := us.2.status.withCounters notice.counters } notice.happening s
      (told ++ call :: rest)) :
    ∃ front f back, notice.happening = .frame f ∧
      (scan 0 (bytes ++ chunk)).1 = front ++ .frame f :: back ∧
        front.filterMap Finding.frame? =
          greedyDecode bytes ++ earlier.filterMap Notice.frame? ∧
          let called := LinkState.tellAll upper (us.1, s) told
          ∀ t ∈ LinkState.stations (upper.answer called.1 call) (called.2.log call.action),
            t.Shows (.ofFindings (bytes ++ chunk).length (front ++ [.frame f])) := by
  obtain ⟨f, happening⟩ := frame_of_reaction reaction
  obtain ⟨front, back, found, before, counters⟩ := h.framer.notice noticed happening
  refine ⟨front, f, back, happening, found, before, ?_⟩
  rw [← counters]
  have reacted := (LinkState.Shows.counted notice.counters us.2).reaction reaction
  have called := LinkState.keep_tellAll (fun emission h => h.emission emission)
    (fun call h => h.log call) upper told (us.1, s) reacted
  exact LinkState.keep_stations (fun emission h => h.emission emission) _ (called.log call)

open Simulation

/-- After every run of a link, its counters are exact for the time since they began anew. What was
sent is what was handed over: its bytes, the control frames among it, and the data frames less the
accepted frames that went out at all. A frame that was accepted is acknowledged, in the window, or
was discarded at a request of the peer. What was received are the bytes given to the link, the
control frames in them, the losses of the stream and the data frames delivered. While the layer
above is told of a frame that was received, the status shows the counters of the stream up to that
frame, and all the bytes of the chunk. -/
theorem counts_acts {config : Config} {driver : δ} {l : Link δ ω}
    (started : ofConfig config driver = .ok l) (upper : Upper υ ω) (u : υ)
    (acts : List (Act δ)) :
    let ran := Link.acts upper (u, l) acts
    let m := ran.2
    let since := recent m.state.journal
    let sent := greedyDecode (handed since).flatten
    let bytes := receivedLately acts
    m.status.tx.bytes = (handed since).flatten.length ∧
      m.status.tx.controlFrames = sent.countP Frame.isControl ∧
      Goes m.state.journal sent ∧
      (departures m.state.journal).length = sent.countP (!·.isControl) ∧
      m.status.tx.retransmissions + (departures m.state.journal).toFinset.card =
        (departures m.state.journal).length ∧
      m.status.tx.dataFrames = (tally since).releases ∧
      (tally since).sends.length =
        m.status.tx.dataFrames + m.inFlight + discarded upper (u, l) 0 acts ∧
      m.status.rx.bytes = bytes.length ∧
      m.status.rx.dataFrames = (tally since).deliveries.length ∧
      m.status.rx.controlFrames = (greedyDecode bytes).countP Frame.isControl ∧
      m.status.rx.resyncs =
        ((Framer.ofCapacity config.receiveStorage).receive bytes).2.countP Notice.isLoss ∧
      ∀ {chunk : Bytes} {earlier later : List Notice} {notice : Notice},
        (m.framer.receive chunk).2 = earlier ++ notice :: later →
          let us := earlier.foldl (LinkState.takeNotice upper) (ran.1, m.state)
          ∀ {s : LinkState δ ω} {told rest : List Call} {call : Call},
            LinkState.Reaction { us.2 with status := us.2.status.withCounters notice.counters }
              notice.happening s (told ++ call :: rest) →
              ∃ front f back, notice.happening = .frame f ∧
                (scan 0 (bytes ++ chunk)).1 = front ++ .frame f :: back ∧
                  front.filterMap Finding.frame? =
                    greedyDecode bytes ++ earlier.filterMap Notice.frame? ∧
                    let called := LinkState.tellAll upper (us.1, s) told
                    ∀ t ∈ LinkState.stations (upper.answer called.1 call)
                        (called.2.log call.action),
                      t.Shows (.ofFindings (bytes ++ chunk).length (front ++ [.frame f])) := by
  intro ran m since sent bytes
  obtain ⟨-, rfl⟩ := ofConfig_eq_ok_iff.mp started
  obtain ⟨-, frames, sendings⟩ := (LinkState.lasting_countsSendings upper).acts acts
    (u, ⟨.ofCapacity config.receiveStorage, .ofConfig config driver⟩)
    (LinkState.countsSendings_ofConfig config driver)
  have accounts := (LinkState.enduring_accounts upper).acts
    (fun _ h => ⟨h.bytes, h.released, h.delivered⟩) acts
    (u, ⟨.ofCapacity config.receiveStorage, .ofConfig config driver⟩) ⟨rfl, rfl, rfl⟩
  have fresh : (LinkState.ofConfig config driver : LinkState δ ω).Balanced 0 := rfl
  have balanced := balanced_acts upper acts
    (u, ⟨.ofCapacity config.receiveStorage, .ofConfig config driver⟩) fresh
  have reports : m.Reports bytes := Reports.acts acts ⟨.new _, rfl, rfl, rfl, rfl⟩
  have frames_eq : frames = sent := sendings.goes.frames_eq
  have counters := reports.framer.counters
  refine ⟨accounts.bytes, ?_, ?_, ?_, sendings.again, accounts.released, balanced, ?_,
    accounts.delivered, ?_, ?_, fun noticed _ _ _ _ reaction => shows_call reports noticed reaction⟩
  · rw [← frames_eq]
    exact sendings.controls
  · rw [← frames_eq]
    exact sendings.goes
  · rw [← frames_eq]
    exact sendings.goes.length_departures
  · exact reports.shows.bytes.trans (congrArg Counters.bytes counters)
  · rw [← frames_scan, ← Finding.countP_isFrame]
    exact reports.shows.controlFrames.trans (congrArg Counters.controlFrames counters)
  · exact reports.shows.resyncs.trans (reports.framer.resyncs _)

/-- Two frames go out twice, since the peer asks for them behind a byte of noise; a data frame comes
in two pieces and is sent back, and then the peer asks to begin anew. -/
theorem counts_discarded :
    let l : Link Wire Remark := ⟨.ofCapacity maxSize, .ofConfig {} {}⟩
    let image := DataFrame.image ⟨0, 3, [5]⟩
    let acts : List (Act Wire) := [.reset, .send 7 [1], .send 7 [2],
      .receive (0xAA :: ControlFrame.image ⟨.nackId, 0⟩ ++ image.take 9),
      .receive (image.drop 9), .receive (ControlFrame.image ⟨.reset, 0⟩), .send 8 [4]]
    let m := (Link.acts echoer ((), l) acts).2
    let sent := greedyDecode (handed (recent m.state.journal)).flatten
    ofConfig {} {} = .ok l ∧ m.status = ⟨⟨110, 0, 4, 2⟩, ⟨30, 1, 2, 0, 1, 0⟩⟩ ∧ m.inFlight = 1 ∧
      discarded echoer ((), l) 0 acts = 3 ∧ (tally (recent m.state.journal)).sends.length = 4 ∧
        Goes m.state.journal sent ∧ m.status.tx.retransmissions = 2 ∧
          departures m.state.journal = [(1, 0), (1, 1), (1, 0), (1, 1), (1, 2), (2, 0)] := by
  intro l image acts m sent
  have started : ofConfig {} {} = .ok l := ofConfig_eq_ok_iff.mpr ⟨Config.valid_default, rfl⟩
  obtain ⟨-, -, goes, -, again, -, balance, -⟩ := counts_acts started echoer () acts
  have again : m.status.tx.retransmissions + (departures m.state.journal).toFinset.card =
      (departures m.state.journal).length := again
  have status : m.status = ⟨⟨110, 0, 4, 2⟩, ⟨30, 1, 2, 0, 1, 0⟩⟩ := by decide +kernel
  have inFlight : m.inFlight = 1 := by decide +kernel
  have lost : discarded echoer ((), l) 0 acts = 3 := by decide +kernel
  have gone : departures m.state.journal = [(1, 0), (1, 1), (1, 0), (1, 1), (1, 2), (2, 0)] := by
    decide +kernel
  have none : m.status.tx.dataFrames = 0 := congrArg (·.tx.dataFrames) status
  refine ⟨started, status, inFlight, lost, ?_, goes, ?_, gone⟩
  · rw [balance, inFlight, lost, none]
  · rw [gone] at again
    exact Nat.add_right_cancel again

end Link

end FramedLink
