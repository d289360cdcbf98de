import Mathlib.Data.List.Induction
import FramedLink.Proofs.Transmission

/-! # When frames went out

A link remembers of each frame in its window how often it was handed over, and what its clock said
when it was handed over last. The journal bears this out: so often the frame was handed over, and
that is what the clock said right before those frames with which it went out last.
-/

namespace FramedLink

open FramedLink.Frame FramedLink.Journal

variable {δ υ ω : Type}

theorem Journal.handed_quiet {entries : List (Entry ω)} (quiet : ∀ entry ∈ entries, entry.Quiet) :
    handed entries = [] := by
  induction entries with
  | nil => rfl
  | cons entry earlier ih =>
    obtain ⟨first, others⟩ := List.forall_mem_cons.mp quiet
    rw [handed_cons_of_quiet first, ih others]

/-- The entries of data frames that were handed over, with their places. -/
def Journal.dataEntries (frames : List (Nat × Bytes)) : List (Entry ω) :=
  frames.flatMap fun frame => [.left (.handed frame.2), .going frame.1]

/-! ## The clock -/

namespace LinkState

section Since

variable [Driver δ]

/-- These entries were written since the link was in the state `r`, and all that its driver did was
to take what was handed over. -/
structure Since (r : LinkState δ ω) (entries : List (Entry ω)) (s : LinkState δ ω) : Prop where
  journal : s.journal = entries ++ r.journal
  driver : s.driver = (handed entries).foldl Driver.send r.driver

/-- The clock said `time` before the newest data frames, one or more, were handed over. -/
def Dates (r : LinkState δ ω) (journal : List (Entry ω)) (time : Nat) : Prop :=
  ∃ frame more older, journal = dataEntries (frame :: more) ++ older ++ r.journal ∧
    time = Driver.clock ((handed older).foldl Driver.send r.driver)

namespace Since

variable {r s s' : LinkState δ ω} {entries : List (Entry ω)}

theorem refl (r : LinkState δ ω) : Since r [] r := ⟨rfl, rfl⟩

theorem quiet (h : Since r entries s) (newer : List (Entry ω)) (quiet : ∀ e ∈ newer, e.Quiet)
    (journal : s'.journal = newer ++ s.journal) (driver : s'.driver = s.driver) :
    Since r (newer ++ entries) s' where
  journal := by
    rw [journal, h.journal, List.append_assoc]
  driver := by
    rw [driver, h.driver, handed_append, handed_quiet quiet, List.append_nil]

theorem same (h : Since r entries s) (journal : s'.journal = s.journal)
    (driver : s'.driver = s.driver) : Since r entries s' :=
  h.quiet [] nofun journal driver

theorem note (h : Since r entries s) (entry : Entry ω) (quiet : entry.Quiet)
    (journal : s'.journal = entry :: s.journal) (driver : s'.driver = s.driver) :
    Since r (entry :: entries) s' :=
  h.quiet [entry] (List.forall_mem_singleton.mpr quiet) journal driver

theorem hand (h : Since r entries s) (bytes : Bytes) :
    Since r (.left (.handed bytes) :: entries) (s.hand bytes) where
  journal := congrArg (Entry.left (.handed bytes) :: ·) h.journal
  driver := by
    show Driver.send s.driver bytes = _
    rw [h.driver, handed, List.foldl_append]
    rfl

theorem handOutgoing (h : Since r entries s) (f : Outgoing) :
    Since r (.left (.handed f.image) :: .going f.place :: entries) (s.handOutgoing f) := by
  have going : Since r (.going f.place :: entries) (s.note (.going f.place)) :=
    ⟨congrArg (Entry.going f.place :: ·) h.journal, h.driver⟩
  have handed := going.hand f.image
  exact ⟨handed.journal, handed.driver⟩

theorem emission (h : Since r entries s) (emission : Emission s s') :
    ∃ entries, Since r entries s' := by
  cases emission with
  | @handControl f =>
    have handed := h.hand f.image
    exact ⟨_, handed.journal, handed.driver⟩
  | @handData _ _ f =>
    have handed := h.handOutgoing f
    exact ⟨_, handed.journal, handed.driver⟩
  | accept => exact ⟨_, h.note _ (Entry.quiet_accepted _ _) rfl rfl⟩
  | remark => exact ⟨_, h.note (.left (.remarked _)) not_false rfl rfl⟩

theorem reaction {happening : Framing.Happening} {calls : List Call} (h : Since r entries s)
    (reaction : Reaction s happening s' calls) : ∃ entries, Since r entries s' := by
  cases reaction with
  | accept => exact ⟨_, h.same rfl rfl⟩
  | again => exact ⟨_, h.same rfl rfl⟩
  | ask => exact ⟨_, h.same rfl rfl⟩
  | pass => exact ⟨_, h.same rfl rfl⟩
  | keep => exact ⟨_, h.same rfl rfl⟩
  | release => exact ⟨_, h.note (.released _) not_false rfl rfl⟩
  | resume => exact ⟨_, h.note (.released _) not_false rfl rfl⟩
  | request => exact ⟨_, h.note _ Entry.quiet_cleared rfl rfl⟩
  | response => exact ⟨_, h.same rfl rfl⟩
  | lost => exact ⟨_, h.same rfl rfl⟩

end Since

end Since

end LinkState

/-! ## The last time -/

variable {dates dates' : List (Entry ω) → Nat → Prop}

/-- The frame accepted at this place of the present epoch was handed over, and the entry about the
last time is dated. -/
def HandedLast (dates : List (Entry ω) → Nat → Prop) (journal : List (Entry ω))
    (place time : Nat) : Prop :=
  ∃ newer bytes before, journal = newer ++ .left (.handed bytes) :: .going place :: before ∧
    clears before = clears journal ∧ AcceptedAs (present before).sends place bytes ∧
      .going place ∉ newer ∧ dates (.left (.handed bytes) :: .going place :: before) time

/-- How often a frame of the window was handed over, when it was last, and its place. -/
def Outgoing.past (f : Outgoing) : Nat × Nat × Nat := (f.attempts, f.sentAt, f.place)

/-- What is remembered about handing over a frame is so. -/
structure Known (dates : List (Entry ω) → Nat → Prop) (journal : List (Entry ω))
    (past : Nat × Nat × Nat) : Prop where
  attempts : past.1 = min ((gone journal).count past.2.2) Outgoing.maxAttempts
  last : 0 < past.1 → HandedLast dates journal past.2.2 past.2.1

namespace HandedLast

variable {journal : List (Entry ω)} {place time : Nat}

theorem entry (h : HandedLast dates journal place time) {entry : Entry ω}
    (epoch : clears (entry :: journal) = clears journal) (other : entry ≠ .going place) :
    HandedLast dates (entry :: journal) place time := by
  obtain ⟨newer, bytes, before, rfl, same, accepted, never, dated⟩ := h
  refine ⟨entry :: newer, bytes, before, rfl, same.trans epoch.symm, accepted, ?_, dated⟩
  rw [List.mem_cons, not_or]
  exact ⟨Ne.symm other, never⟩

theorem imp (h : HandedLast dates journal place time)
    (imp : ∀ past time, past <:+ journal → dates past time → dates' past time) :
    HandedLast dates' journal place time := by
  obtain ⟨newer, bytes, before, split, epoch, accepted, never, dated⟩ := h
  exact ⟨newer, bytes, before, split, epoch, accepted, never, imp _ _ ⟨newer, split.symm⟩ dated⟩

end HandedLast

namespace Known

variable {journal : List (Entry ω)} {past : Nat × Nat × Nat}

theorem entry (h : Known dates journal past) {entry : Entry ω} (quiet : entry.Quiet)
    (epoch : clears (entry :: journal) = clears journal) : Known dates (entry :: journal) past where
  attempts := by
    rw [gone_quiet quiet epoch]
    exact h.attempts
  last some := by
    refine (h.last some).entry epoch ?_
    rintro rfl
    exact quiet trivial

theorem control (h : Known dates journal past) (bytes : Bytes) :
    Known dates (.left (.handed bytes) :: journal) past where
  attempts := by
    rw [gone_handed]
    exact h.attempts
  last some := (h.last some).entry rfl nofun

theorem pass (h : Known dates journal past) {other : Nat} (apart : other ≠ past.2.2)
    (bytes : Bytes) : Known dates (.left (.handed bytes) :: .going other :: journal) past where
  attempts := by
    rw [gone_data, List.count_append, List.count_singleton, if_neg (by simpa using apart)]
    exact h.attempts
  last some := by
    have going : HandedLast dates (.going other :: journal) past.2.2 past.2.1 :=
      (h.last some).entry rfl fun same => apart (Entry.going.inj same)
    exact going.entry rfl nofun

theorem mark {f : Outgoing} {now : Nat} (h : Known dates journal f.past)
    (accepted : AcceptedAs (present journal).sends f.place f.image)
    (dated : dates (.left (.handed f.image) :: .going f.place :: journal) now) :
    Known dates (.left (.handed f.image) :: .going f.place :: journal) (f.markSent now).past where
  attempts := by
    have before : f.attempts = min ((gone journal).count f.place) Outgoing.maxAttempts := h.attempts
    show min (f.attempts + 1) Outgoing.maxAttempts = min ((gone _).count f.place) _
    rw [gone_data, List.count_append, List.count_singleton_self, before]
    omega
  last _ := ⟨[], f.image, journal, rfl, rfl, accepted, nofun, dated⟩

end Known

namespace LinkState

/-- What went out, and what is remembered of it. -/
structure Dated (dates : List (Entry ω) → Nat → Prop) (s : LinkState δ ω) : Prop where
  numbered : Numbered s.receiver s.control
  tracing : Tracing s.journal s.window s.nextId
  known : ∀ past ∈ s.window.frames.map Outgoing.past, Known dates s.journal past

theorem dated_ofConfig (dates : List (Entry ω) → Nat → Prop) (config : Config) (driver : δ) :
    (LinkState.ofConfig config driver : LinkState δ ω).Dated dates :=
  ⟨⟨Nat.zero_lt_succ _, nofun⟩, ⟨.nothing, nofun, .nil, rfl, rfl, rfl⟩, nofun⟩

namespace Dated

variable {s s' : LinkState δ ω}

theorem imp (h : s.Dated dates)
    (imp : ∀ past time, past <:+ s.journal → dates past time → dates' past time) :
    s.Dated dates' where
  numbered := h.numbered
  tracing := h.tracing
  known past among :=
    ⟨(h.known past among).attempts, fun some => ((h.known past among).last some).imp imp⟩

theorem handing [Driver δ] {now : Option Nat} (h : s.Dated dates) (handing : Handing now s s')
    (dated : ∀ bytes place time, now = some time →
      dates (.left (.handed bytes) :: .going place :: s.journal) time) : s'.Dated dates := by
  have numbered := handing.emission.numbered h.numbered
  cases handing with
  | control first =>
    have small := h.numbered.waiting _ (by rw [first]; exact List.mem_cons_self)
    exact ⟨numbered, h.tracing.control small, fun past among => (h.known past among).control _⟩
  | @data _ sent rest f time _ frames before =>
    refine ⟨numbered, h.tracing.mark frames before time, ?_⟩
    obtain ⟨less, more⟩ := h.tracing.places_around frames
    have known : ∀ g ∈ s.window.frames, Known dates s.journal g.past :=
      List.forall_mem_map.mp h.known
    refine List.forall_mem_map.mpr fun g among => ?_
    rcases List.mem_append.mp among with inside | inside
    · exact (known g (by simp [frames, inside])).pass (Nat.ne_of_gt (less g inside)) _
    · rcases List.mem_cons.mp inside with rfl | inside
      · have itself : f ∈ s.window.frames := by simp [frames]
        exact (known f itself).mark (h.tracing.traced f itself).accepted (dated _ _ _ rfl)
      · exact (known g (by simp [frames, inside])).pass (Nat.ne_of_lt (more g inside)) _

/-- To flush is to read the clock once, before the data frames. -/
theorem flush [Driver δ] {r : LinkState δ ω} (h : s.Dated dates) {entries : List (Entry ω)}
    (since : Since r entries s) (dated : ∀ past time, r.Dates past time → dates past time) :
    s.flush.Dated dates := by
  obtain ⟨now, flushed, -⟩ : ∃ now, s.flush.Dated dates ∧ ∃ older more,
      Since r (dataEntries more ++ older) s.flush ∧
        now = Driver.clock ((handed older).foldl Driver.send r.driver) := by
    refine keep_flush (P := fun s => s.Dated dates ∧ ∃ entries, Since r entries s)
      (R := fun now s => s.Dated dates ∧ ∃ older more, Since r (dataEntries more ++ older) s ∧
        now = Driver.clock ((handed older).foldl Driver.send r.driver)) ?_ ?_ ?_ ⟨h, entries, since⟩
    · rintro s s' handing ⟨h, _, since⟩
      exact ⟨h.handing handing nofun, since.emission handing.emission⟩
    · rintro s ⟨h, older, since⟩
      exact ⟨h, older, [], since, congrArg Driver.clock since.driver⟩
    · rintro now s s' handing ⟨h, older, more, since, read⟩
      refine ⟨h.handing handing ?_, older, ?_⟩
      · intro bytes place time same
        refine dated _ _ ⟨(place, bytes), more, older, ?_, (Option.some.inj same).symm.trans read⟩
        rw [since.journal]
        rfl
      · cases handing with
        | @data _ _ _ f =>
          have next := since.handOutgoing f
          exact ⟨(f.place, f.image) :: more, ⟨next.journal, next.driver⟩, read⟩
  exact flushed

theorem accept {metadata : Nat} {payload : Bytes} {window : SendWindow} (h : s.Dated dates)
    (some : payload ≠ []) (short : payload.length ≤ maxPayload) (fits : metadata ≤ maxMetadata)
    (pushed : s.window.push s.nextId (DataFrame.image ⟨s.nextId, metadata, payload⟩) =
      .some window) :
    ({ s with window, nextId := FrameId.next s.nextId }.note (.accepted metadata payload)).Dated
      dates := by
  have quiet := Entry.quiet_accepted (ω := ω) metadata payload
  refine ⟨h.numbered, h.tracing.push some short fits pushed, ?_⟩
  obtain ⟨free, -, rfl⟩ := SendWindow.push_eq_some_iff.mp pushed
  intro past among
  simp only [note, List.map_append] at among
  rcases List.mem_append.mp among with before | last
  · exact (h.known past before).entry quiet rfl
  · obtain rfl := List.mem_singleton.mp last
    have never : s.window.entered ∉ gone s.journal := by
      intro inside
      have less : s.window.entered < (present s.journal).sends.length :=
        (h.tracing.transmitted (clears s.journal)).lt_length _ inside
      exact absurd h.tracing.entered (Nat.ne_of_lt less)
    refine ⟨?_, fun some => absurd some (Nat.lt_irrefl 0)⟩
    show 0 = min ((gone (.accepted metadata payload :: s.journal)).count s.window.entered) _
    rw [gone_quiet quiet rfl, List.count_eq_zero_of_not_mem never, Nat.zero_min]

theorem other (h : s.Dated dates) {entry : Entry ω}
    (epoch : clears (entry :: s.journal) = clears s.journal)
    (sends : (present (entry :: s.journal)).sends = (present s.journal).sends)
    (quiet : entry.Quiet) : (s.note entry).Dated dates :=
  ⟨h.numbered, h.tracing.other epoch sends quiet,
    fun past among => (h.known past among).entry quiet epoch⟩

theorem idle (h : s.Dated dates) {entry : Entry ω} (idle : entry.Idle) (quiet : entry.Quiet) :
    (s.note entry).Dated dates :=
  h.other (clears_idle idle _) (congrArg Tally.sends (present_idle idle _)) quiet

theorem answer (h : s.Dated dates) (f : ControlFrame) :
    { s with window := (s.window.answer f).2 }.Dated dates := by
  refine ⟨h.numbered, h.tracing.answer f, fun past among => h.known past ?_⟩
  obtain ⟨released, kept, parts, -, same⟩ := s.window.answer_cases f
  have fewer := (parts.inOrder.map Outgoing.past).subset
  rcases same with same | same
  · simp only [same] at among
    exact fewer among
  · simp only [same, SendWindow.rewind, List.map_map] at among
    exact fewer among

theorem same (h : s.Dated dates) (receiver : s'.receiver = s.receiver)
    (control : s'.control = s.control) (journal : s'.journal = s.journal)
    (window : s'.window = s.window) (nextId : s'.nextId = s.nextId) : s'.Dated dates where
  numbered := by
    rw [receiver, control]
    exact h.numbered
  tracing := by
    rw [journal, window, nextId]
    exact h.tracing
  known := by
    rw [journal, window]
    exact h.known

theorem release (h : s.Dated dates) (count : Nat) : (s.release count).Dated dates := by
  have written : (s.note (.released count)).Dated dates :=
    h.other rfl (by rw [present_released]; rfl) not_false
  exact written.same rfl rfl rfl rfl rfl

theorem reaction {happening : Framing.Happening} {calls : List Call} (h : s.Dated dates)
    (reaction : Reaction s happening s' calls) : s'.Dated dates := by
  have numbered := reaction.numbered h.numbered
  cases reaction with
  | accept => exact ⟨numbered, h.tracing, h.known⟩
  | again => exact ⟨numbered, h.tracing, h.known⟩
  | ask => exact ⟨numbered, h.tracing, h.known⟩
  | pass => exact ⟨numbered, h.tracing, h.known⟩
  | keep => exact h.answer _
  | release => exact (h.answer _).release _
  | resume => exact ((h.answer _).release _).same rfl rfl rfl rfl rfl
  | request => exact ⟨numbered, h.tracing.clear, nofun⟩
  | response => exact h.same rfl rfl rfl rfl rfl
  | lost => exact ⟨numbered, h.tracing, h.known⟩

theorem log (h : s.Dated dates) (call : Call) : (s.log call.action).Dated dates := by
  cases call with
  | event => exact h.idle trivial not_false
  | data => exact h.other rfl (by rw [Call.action, present_delivered]; rfl) not_false

theorem rewind (h : s.Dated dates) : { s with window := s.window.rewind }.Dated dates := by
  refine ⟨h.numbered, h.tracing.rewind, ?_⟩
  rw [SendWindow.rewind, List.map_map]
  exact h.known

theorem restarted (h : s.Dated dates) : s.restarted.Dated dates := by
  refine ⟨(numbered_clear _ s.control).push .reset (by decide), ?_, nofun⟩
  exact h.tracing.clear.other rfl (by rw [present_restarted]) not_false

end Dated

section

variable [Driver δ] (upper : Upper υ ω)

theorem enduring_dated {r : LinkState δ ω}
    (dated : ∀ past time, r.Dates past time → dates past time) :
    Enduring upper fun _ _ (s : LinkState δ ω) => s.Dated dates ∧ ∃ entries, Since r entries s where
  utterance := by
    intro due u s s' utterance h
    obtain ⟨h, entries, since⟩ := h
    refine ⟨?_, utterance.emits.keep (P := fun s => ∃ entries, Since r entries s)
      (fun emission ⟨_, since⟩ => since.emission emission) ⟨entries, since⟩⟩
    cases utterance with
    | flush => exact h.flush since dated
    | accept some short fits _ pushed => exact h.accept some short fits pushed
    | remark => exact h.idle trivial not_false
  reaction := fun reaction ⟨h, _, since⟩ => ⟨h.reaction reaction, since.reaction reaction⟩
  told := by
    rintro u s (event | ⟨metadata, payload⟩) due ⟨h, _, since⟩
    · exact ⟨h.log _, _, since.note (.left (.raised event)) not_false rfl rfl⟩
    · exact ⟨h.log _, _, since.note (.left (.delivered metadata payload)) not_false rfl rfl⟩
  counted := fun _ ⟨h, _, since⟩ => ⟨h.same rfl rfl rfl rfl rfl, _, since.same rfl rfl⟩
  disconnected := fun _ ⟨h, _, since⟩ => ⟨h.same rfl rfl rfl rfl rfl, _, since.same rfl rfl⟩
  rewind := fun ⟨h, _, since⟩ => ⟨h.rewind, _, since.same rfl rfl⟩
  restarted := by
    rintro u s ⟨h, entries, since⟩
    have cleared : Since r (.cleared :: entries) s.clear :=
      since.note _ Entry.quiet_cleared rfl rfl
    have restarted : Since r (.restarted :: .cleared :: entries) s.restarted :=
      cleared.note _ not_false rfl rfl
    exact ⟨h.restarted, _, restarted⟩

end

end LinkState

namespace Link

variable [Driver δ]

/-- In the course of one of these acts the newest frames were handed over, when its clock said
`time`. -/
def Dates (upper : Upper υ ω) (ul : υ × Link δ ω) (acts : List (Act δ))
    (journal : List (Entry ω)) (time : Nat) : Prop :=
  ∃ earlier act later, acts = earlier ++ act :: later ∧
    (Link.acts upper ul earlier).2.state.Dates journal time ∧
      journal <:+ (Link.acts upper ul (earlier ++ [act])).2.state.journal

variable {upper : Upper υ ω} {ul : υ × Link δ ω} {acts : List (Act δ)}

theorem acts_concat (act : Act δ) :
    Link.acts upper ul (acts ++ [act]) = Link.act upper (Link.acts upper ul acts) act := by
  unfold Link.acts
  rw [List.foldl_append]
  rfl

theorem Dates.concat {journal : List (Entry ω)} {time : Nat} (h : Dates upper ul acts journal time)
    (act : Act δ) : Dates upper ul (acts ++ [act]) journal time := by
  obtain ⟨earlier, last, later, rfl, dates, inside⟩ := h
  refine ⟨earlier, last, later ++ [act], ?_, dates, inside⟩
  rw [List.append_assoc]
  rfl

/-- In the course of a further act, frames are dated by the acts before it and by its own clock. -/
def DatesNow (upper : Upper υ ω) (ul : υ × Link δ ω) (acts : List (Act δ))
    (journal : List (Entry ω)) (time : Nat) : Prop :=
  Dates upper ul acts journal time ∨ (Link.acts upper ul acts).2.state.Dates journal time

theorem DatesNow.concat {journal : List (Entry ω)} {time : Nat}
    (h : DatesNow upper ul acts journal time) {act : Act δ}
    (inside : journal <:+ (Link.acts upper ul (acts ++ [act])).2.state.journal) :
    Dates upper ul (acts ++ [act]) journal time := by
  rcases h with before | now
  · exact before.concat act
  · exact ⟨acts, act, [], rfl, now, inside⟩

theorem enduring_datesNow :
    LinkState.Enduring upper fun _ _ (s : LinkState δ ω) =>
      s.Dated (DatesNow upper ul acts) ∧
        ∃ entries, LinkState.Since (Link.acts upper ul acts).2.state entries s :=
  LinkState.enduring_dated upper fun _ _ => .inr

/-- Whatever is done with a link, what it remembers of the frames of its window is right. -/
theorem dated_acts (start : ∀ dates, ul.2.state.Dated dates) (acts : List (Act δ)) :
    (Link.acts upper ul acts).2.state.Dated (Dates upper ul acts) := by
  induction acts using List.reverseRecOn with
  | nil => exact start _
  | append_singleton earlier act ih =>
    have before : (Link.acts upper ul earlier).2.state.Dated (DatesNow upper ul earlier) :=
      ih.imp fun _ _ _ => .inl
    have after : (Link.acts upper ul (earlier ++ [act])).2.state.Dated
        (DatesNow upper ul earlier) := by
      rw [acts_concat]
      by_cases tune : ∃ driver, act = .tune driver
      · obtain ⟨driver, rfl⟩ := tune
        exact before.same rfl rfl rfl rfl rfl
      · have holds := enduring_datesNow.act (Link.acts upper ul earlier)
          (fun driver same => tune ⟨driver, same⟩) ⟨before, [], .refl _⟩
        exact holds.1
    exact after.imp fun _ _ inside dates => dates.concat inside

end Link

end FramedLink
