import FramedLink.Proofs.Exhausting
import FramedLink.Proofs.Flushing
import FramedLink.Proofs.Forgetting
import FramedLink.Proofs.Overdue
import FramedLink.Proofs.Precedence
import FramedLink.Proofs.Silence

/-! # Going back

When time passes, a link goes back to its oldest frame if that is overdue, and sends its whole
window again, each frame once and in its order. If it is not, nothing that was sent is sent again.
Either way, no frame is overdue afterwards, and none is lost.
-/

namespace FramedLink

open FramedLink.Frame FramedLink.Journal

variable {δ ω υ : Type} [Driver δ]

theorem Outgoing.map_image_of_unsent {frames frames' : List Outgoing}
    (same : frames.map unsent = frames'.map unsent) : frames.map image = frames'.map image := by
  have images := congrArg (List.map Prod.snd) (map_named_of_unsent same)
  rw [List.map_map, List.map_map] at images
  exact images

theorem SendWindow.pending_rewind (w : SendWindow) :
    ∀ f ∈ w.rewind.frames, f.phase = .pending := by
  intro f among
  obtain ⟨_, _, rfl⟩ := List.mem_map.mp among
  rfl

namespace LinkState

variable {s : LinkState δ ω}

/-! ## What a flush hands over -/

theorem handed_handControls (queue : List ControlFrame) (s : LinkState δ ω) :
    ∃ controls, queue = controls ++ (handControls queue s).1 ∧
      handed (handControls queue s).2.journal =
        handed s.journal ++ controls.map ControlFrame.image := by
  induction queue generalizing s with
  | nil => exact ⟨[], rfl, (List.append_nil _).symm⟩
  | cons f rest ih =>
    rw [handControls]
    split
    · exact ⟨[], rfl, (List.append_nil _).symm⟩
    · obtain ⟨controls, queue, same⟩ := ih { s.hand f.image with
        status.tx.controlFrames := s.status.tx.controlFrames + 1 }
      refine ⟨f :: controls, congrArg (f :: ·) queue, same.trans ?_⟩
      exact List.append_assoc _ [f.image] _

private theorem handPending_sent (now : Nat) {before : List Outgoing}
    (sent : ∀ f ∈ before, f.phase = .sent) (waiting : List Outgoing) (s : LinkState δ ω) :
    handPending now (before ++ waiting) s =
      (before ++ (handPending now waiting s).1, (handPending now waiting s).2) := by
  induction before with
  | nil => rfl
  | cons f rest ih =>
    obtain ⟨first, others⟩ := List.forall_mem_cons.mp sent
    rw [List.cons_append, handPending, if_pos first, ih others]
    rfl

theorem handed_handPending (now : Nat) {waiting : List Outgoing}
    (pending : ∀ f ∈ waiting, f.phase = .pending) (s : LinkState δ ω) :
    ∃ given kept, waiting = given ++ kept ∧
      (handPending now waiting s).1 = given.map (·.markSent now) ++ kept ∧
      handed (handPending now waiting s).2.journal =
        handed s.journal ++ given.map Outgoing.image := by
  induction waiting generalizing s with
  | nil => exact ⟨[], [], rfl, rfl, (List.append_nil _).symm⟩
  | cons f rest ih =>
    obtain ⟨first, others⟩ := List.forall_mem_cons.mp pending
    rw [handPending, if_neg (Phase.eq_pending_iff.mp first)]
    split
    · exact ⟨[], f :: rest, rfl, rfl, (List.append_nil _).symm⟩
    · obtain ⟨given, kept, frames, marked, same⟩ := ih others (s.handOutgoing f)
      refine ⟨f :: given, kept, congrArg (f :: ·) frames, ?_, same.trans ?_⟩
      · exact congrArg (f.markSent now :: ·) marked
      · exact List.append_assoc _ [f.image] _

/-- What a flush hands over: the first control frames and, if none is left, the first of the data
frames that wait. -/
structure Flushed (s : LinkState δ ω) (controls rest : List ControlFrame)
    (before given kept : List Outgoing) (now : Nat) : Prop where
  waiting : s.control.waiting = controls ++ rest
  frames : s.window.frames = before ++ given ++ kept
  left : s.flush.control.waiting = rest
  marked : s.flush.window.frames = before ++ given.map (·.markSent now) ++ kept
  handed : handed s.flush.journal =
    handed s.journal ++ controls.map ControlFrame.image ++ given.map Outgoing.image
  turn : given ≠ [] → rest = []

theorem exists_flushed {before waiting : List Outgoing}
    (frames : s.window.frames = before ++ waiting) (sent : ∀ f ∈ before, f.phase = .sent)
    (pending : ∀ f ∈ waiting, f.phase = .pending) :
    ∃ controls rest given kept now, waiting = given ++ kept ∧
      Flushed s controls rest before given kept now := by
  obtain ⟨controls, queue, handed⟩ := handed_handControls s.control.waiting s
  have window := congrArg LinkState.window (handControls_frame s.control.waiting s)
  cases result : handControls s.control.waiting s with
  | mk rest m =>
    rw [result] at queue handed window
    cases rest with
    | cons f rest =>
      have flushed : s.flush = { m with control.waiting := f :: rest } := by
        unfold flush
        rw [result]
      refine ⟨controls, f :: rest, [], waiting, 0, rfl, queue, ?_, ?_, ?_, ?_, nofun⟩
      · rw [frames, List.append_nil]
      · rw [flushed]
      · rw [flushed, List.map_nil, List.append_nil, ← frames]
        exact congrArg SendWindow.frames window
      · rw [flushed, List.map_nil, List.append_nil]
        exact handed
    | nil =>
      have flushed : s.flush = { (handPending m.clock m.window.frames m).2 with
          control.waiting := []
          window.frames := (handPending m.clock m.window.frames m).1 } := by
        unfold flush
        rw [result]
      have inside : m.window.frames = before ++ waiting :=
        (congrArg SendWindow.frames window).trans frames
      obtain ⟨given, kept, parts, marked, handed'⟩ := handed_handPending m.clock pending m
      rw [inside, handPending_sent m.clock sent] at flushed
      refine ⟨controls, [], given, kept, m.clock, parts, queue, ?_, ?_, ?_, ?_, fun _ => rfl⟩
      · rw [frames, parts, List.append_assoc]
      · rw [flushed]
      · rw [flushed, marked, List.append_assoc]
      · rw [flushed, ← handed]
        exact handed'

private theorem Flushed.firstPending?_eq {controls rest : List ControlFrame}
    {before given kept : List Outgoing} {now : Nat}
    (flushed : Flushed s controls rest before given kept now)
    (sent : ∀ f ∈ before, f.phase = .sent) {f : Outgoing} {others : List Outgoing}
    (first : kept = f :: others) (waits : f.phase = .pending) :
    s.flush.window.firstPending? = some f := by
  have none : ∀ g ∈ before ++ given.map (·.markSent now), g.phase = .sent := by
    intro g among
    rcases List.mem_append.mp among with front | marked
    · exact sent g front
    · obtain ⟨_, _, rfl⟩ := List.mem_map.mp marked
      rfl
  unfold SendWindow.firstPending?
  rw [flushed.marked, first, List.find?_append, List.find?_eq_none.mpr, Option.none_or]
  · exact List.find?_cons_of_pos (by simp [waits])
  · intro g among
    simp [none g among]

private theorem handed_flush_of_ready {before waiting : List Outgoing}
    (frames : s.window.frames = before ++ waiting) (sent : ∀ f ∈ before, f.phase = .sent)
    (pending : ∀ f ∈ waiting, f.phase = .pending)
    (short : ∀ bytes ∈ s.window.frames.map Outgoing.image, bytes.length ≤ maxSize) {due : Nat}
    (ready : Driver.Ready due s.driver) :
    handed s.flush.journal =
      handed s.journal ++ s.control.waiting.map ControlFrame.image ++
        waiting.map Outgoing.image := by
  obtain ⟨controls, rest, given, kept, now, parts, flushed⟩ := exists_flushed frames sent pending
  obtain ⟨none, ready'⟩ := flush_ready ready
  obtain rfl : rest = [] := flushed.left.symm.trans none
  cases kept with
  | nil => rw [flushed.handed, flushed.waiting, parts, List.append_nil, List.append_nil]
  | cons f others =>
    have first := flushed.firstPending?_eq sent rfl (pending f (by simp [parts]))
    rcases exhausted_flush s with ⟨busy, -⟩ | ⟨-, full⟩
    · exact absurd none busy
    · have inside : f ∈ s.window.frames := by simp [frames, parts]
      have fits := short f.image (List.mem_map_of_mem inside)
      exact absurd (Nat.le_trans fits ready'.space) (Nat.not_le_of_lt (full f first))

/-! ## Time -/

theorem Emission.clock_le (advances : Driver.Advances δ) {s' : LinkState δ ω}
    (emission : Emission s s') : s.clock ≤ s'.clock := by
  cases emission with
  | handControl => exact advances _ _
  | handData => exact advances _ _
  | accept => exact Nat.le_refl _
  | remark => exact Nat.le_refl _

private theorem clock_flush_le (advances : Driver.Advances δ) (s : LinkState δ ω) :
    s.clock ≤ s.flush.clock :=
  (emits_flush s).keep (P := fun t => s.clock ≤ t.clock)
    (fun emission before => Nat.le_trans before (emission.clock_le advances)) (Nat.le_refl _)

private theorem clock_le_sentAt_flush (advances : Driver.Advances δ)
    (pending : ∀ f ∈ s.window.frames, f.phase = .pending) :
    ∀ f ∈ s.flush.window.frames, f.phase = .sent → s.clock ≤ f.sentAt := by
  obtain ⟨now, -, recent⟩ :
      ∃ now, s.clock ≤ now ∧ ∀ f ∈ s.flush.window.frames, f.phase = .sent → s.clock ≤ f.sentAt := by
    refine keep_flush
      (P := fun t => s.clock ≤ t.clock ∧ ∀ f ∈ t.window.frames, f.phase = .pending)
      (R := fun now t =>
        s.clock ≤ now ∧ ∀ f ∈ t.window.frames, f.phase = .sent → s.clock ≤ f.sentAt)
      ?_ ?_ ?_ ⟨Nat.le_refl _, pending⟩
    · intro t t' handing h
      cases handing with
      | control => exact ⟨Nat.le_trans h.1 (advances _ _), h.2⟩
    · intro t h
      refine ⟨h.1, fun f among sent => ?_⟩
      rw [h.2 f among] at sent
      cases sent
    · intro now t t' handing h
      cases handing with
      | @data _ sent rest f _ _ frames =>
        refine ⟨h.1, fun g among => ?_⟩
        rcases List.mem_append.mp among with front | back
        · exact h.2 g (frames ▸ List.mem_append_left _ front)
        · rcases List.mem_cons.mp back with rfl | later
          · exact fun _ => h.1
          · exact h.2 g (frames ▸ List.mem_append_right _ (List.mem_cons_of_mem _ later))
  exact recent

/-! ## Timeouts -/

/-- If the oldest frame is overdue after a flush and was not before, no frame was sent before. -/
theorem pending_of_overdue_flush (queued : s.Queued)
    (timely : ∀ oldest, s.window.oldestSent? = some oldest →
      s.flush.clock - oldest.sentAt < s.config.timeout) (overdue : s.flush.Overdue) :
    ∀ f ∈ s.window.frames, f.phase = .pending := by
  obtain ⟨oldest, first, late⟩ := overdue
  apply pending_of_oldestSent?_eq_none queued.first
  cases found : s.window.oldestSent? with
  | none => rfl
  | some front =>
    rw [oldestSent?_flush found] at first
    cases first
    rw [config_flush] at late
    exact absurd late (Nat.not_le_of_lt (timely _ found))

private theorem Flushed.ne_nil_of_overdue {controls rest : List ControlFrame}
    {before given kept : List Outgoing} {now : Nat}
    (flushed : Flushed s controls rest before given kept now)
    (pending : ∀ f ∈ s.window.frames, f.phase = .pending) (overdue : s.flush.Overdue) :
    given ≠ [] := by
  rintro rfl
  have same : s.flush.window.frames = s.window.frames := flushed.marked.trans flushed.frames.symm
  obtain ⟨oldest, first, -⟩ := overdue
  obtain ⟨head, sent⟩ := Option.filter_eq_some_iff.mp first
  have waits := pending oldest (same ▸ List.mem_of_mem_head? head)
  rw [waits] at sent
  cases sent

section Silent

variable {upper : Upper υ ω} (silent : upper.Silent) (u : υ)
include silent

private theorem warn_silent (s : LinkState δ ω) :
    ∃ disconnected journal, (s.warn upper u).2 = { s with disconnected, journal } ∧
      handed journal = handed s.journal := by
  unfold warn
  split
  · obtain ⟨remarks, same⟩ := run_silent (silent.onEvent u .disconnected)
      ({ s with disconnected := true }.log (.raised .disconnected))
    have quiet : ∀ entry ∈ remarks.map fun r => (.left (.remarked r) : Entry ω), entry.Quiet := by
      intro entry among
      obtain ⟨_, _, rfl⟩ := List.mem_map.mp among
      exact nofun
    refine ⟨true, _, same, ?_⟩
    rw [handed_append, handed_quiet quiet, List.append_nil]
    rfl
  · exact ⟨_, _, rfl, rfl⟩

/-- When a frame is overdue, the whole window waits to be sent again, and is flushed. -/
theorem checkTimeout_silent (overdue : s.Overdue) :
    ∃ t : LinkState δ ω, (s.checkTimeout upper u).2 = t.flush ∧ t.driver = s.driver ∧
      t.control = s.control ∧ t.window = s.window.rewind ∧ handed t.journal = handed s.journal := by
  obtain ⟨disconnected, journal, same, nothing⟩ := warn_silent silent u s
  refine ⟨{ s with disconnected, journal, window := s.window.rewind }, ?_, rfl, rfl, rfl, nothing⟩
  rw [checkTimeout_of_overdue upper u overdue, same]
  rfl

private theorem unsent_checkTimeout (s : LinkState δ ω) :
    (s.checkTimeout upper u).2.window.frames.map Outgoing.unsent =
      s.window.frames.map Outgoing.unsent := by
  by_cases overdue : s.Overdue
  · obtain ⟨t, same, -, -, window, -⟩ := checkTimeout_silent silent u overdue
    rw [same, unsent_flush, window]
    exact List.map_map
  · rw [checkTimeout_of_not_overdue upper u overdue]

private theorem timely_checkTimeout (advances : Driver.Advances δ) (queued : s.Queued)
    (patient : 0 < s.config.timeout) :
    ∀ f ∈ (s.checkTimeout upper u).2.window.frames, f.phase = .sent →
      s.clock - f.sentAt < s.config.timeout := by
  intro f among sent
  by_cases overdue : s.Overdue
  · obtain ⟨t, same, driver, -, window, -⟩ := checkTimeout_silent silent u overdue
    have pending : ∀ f ∈ t.window.frames, f.phase = .pending :=
      window ▸ s.window.pending_rewind
    rw [same] at among
    have recent := clock_le_sentAt_flush advances pending f among sent
    have clock : t.clock = s.clock := congrArg Driver.clock driver
    omega
  · rw [checkTimeout_of_not_overdue upper u overdue] at among
    cases first : s.window.oldestSent? with
    | none =>
      rw [pending_of_oldestSent?_eq_none queued.first first f among] at sent
      cases sent
    | some oldest =>
      have before := ((queued.orderly.oldestSent oldest first).2.2 f among).2 sent
      have timely : s.clock - oldest.sentAt < s.config.timeout :=
        Nat.lt_of_not_le fun due => overdue ⟨oldest, first, due⟩
      omega

/-- When the oldest frame is overdue and the driver has space, the driver is handed what waited, and
then the whole window. -/
theorem handed_overdue (queued : s.Queued) {oldest : Outgoing}
    (first : s.window.oldestSent? = some oldest)
    (overdue : s.config.timeout ≤ s.flush.clock - oldest.sentAt) {due : Nat}
    (ready : Driver.Ready due s.driver)
    (short : ∀ bytes ∈ s.window.frames.map Outgoing.image, bytes.length ≤ maxSize) :
    handed (s.flush.checkTimeout upper u).2.journal =
      handed s.journal ++ s.control.waiting.map ControlFrame.image ++
        (s.window.frames.filter (·.phase = .pending)).map Outgoing.image ++
        s.window.frames.map Outgoing.image := by
  obtain ⟨before, waiting, frames, sent, pending, -⟩ := queued.orderly.sentFirst
  have waits : s.window.frames.filter (·.phase = .pending) = waiting := by
    rw [frames, List.filter_append, List.filter_eq_nil_iff.mpr, List.filter_eq_self.mpr]
    · rfl
    · simpa using pending
    · intro f among
      simp [sent f among]
  have late : s.flush.Overdue :=
    ⟨oldest, oldestSent?_flush first, (config_flush s).symm ▸ overdue⟩
  obtain ⟨none, ready'⟩ := flush_ready ready
  obtain ⟨t, same, driver, control, window, nothing⟩ := checkTimeout_silent silent u late
  have images : t.window.frames.map Outgoing.image = s.window.frames.map Outgoing.image := by
    rw [window]
    exact List.map_map.trans (Outgoing.map_image_of_unsent (unsent_flush s))
  have rewound : ∀ f ∈ t.window.frames, f.phase = .pending :=
    window ▸ s.flush.window.pending_rewind
  have first := handed_flush_of_ready frames sent pending short ready
  have again := handed_flush_of_ready (List.nil_append _).symm nofun rewound (images ▸ short)
    (driver ▸ ready')
  rw [same, again, nothing, control, none, images, first, waits, List.map_nil, List.append_nil]

/-- When no control frame waits, a timeout hands over the first frames of the window, if any. -/
theorem handed_checkTimeout_take (none : s.control.waiting = []) :
    ∃ n, handed (s.checkTimeout upper u).2.journal =
      handed s.journal ++ (s.window.frames.take n).map Outgoing.image := by
  by_cases overdue : s.Overdue
  · obtain ⟨t, same, -, control, window, nothing⟩ := checkTimeout_silent silent u overdue
    have images : t.window.frames.map Outgoing.image = s.window.frames.map Outgoing.image := by
      rw [window]
      exact List.map_map
    obtain ⟨controls, rest, given, kept, _, parts, flushed⟩ :=
      exists_flushed (List.nil_append _).symm nofun (window ▸ s.window.pending_rewind)
    have queue := flushed.waiting
    rw [control, none] at queue
    obtain ⟨rfl, -⟩ := List.append_eq_nil_iff.mp queue.symm
    refine ⟨given.length, ?_⟩
    rw [same, flushed.handed, nothing, List.map_take, ← images, parts, ← List.map_take,
      List.take_left]
    simp
  · exact ⟨0, by rw [checkTimeout_of_not_overdue upper u overdue]; simp⟩

/-- When the oldest frame is not overdue, what was sent before is left as it is. -/
theorem handed_timely (queued : s.Queued)
    (timely : ∀ oldest, s.window.oldestSent? = some oldest →
      s.flush.clock - oldest.sentAt < s.config.timeout) :
    (∀ f ∈ s.window.frames, f.phase = .sent →
        f ∈ (s.flush.checkTimeout upper u).2.window.frames) ∧
      ∃ (controls : List ControlFrame) (data : List Outgoing), controls <+: s.control.waiting ∧
        (∀ f ∈ data, f ∈ s.window.frames ∧ f.phase = .pending) ∧
        handed (s.flush.checkTimeout upper u).2.journal =
          handed s.journal ++ controls.map ControlFrame.image ++ data.map Outgoing.image := by
  obtain ⟨before, waiting, frames, sent, pending, -⟩ := queued.orderly.sentFirst
  obtain ⟨controls, rest, given, kept, now, parts, flushed⟩ := exists_flushed frames sent pending
  have queue : controls <+: s.control.waiting := ⟨rest, flushed.waiting.symm⟩
  have handedFirst : ∀ f ∈ given, f ∈ s.window.frames ∧ f.phase = .pending := fun f among =>
    ⟨by simp [frames, parts, among], pending f (by simp [parts, among])⟩
  by_cases overdue : s.flush.Overdue
  · -- Only a clock that runs on within the flush can get here, and then nothing was sent before.
    have all := pending_of_overdue_flush queued timely overdue
    obtain rfl : rest = [] := flushed.turn (flushed.ne_nil_of_overdue all overdue)
    obtain ⟨n, again⟩ := handed_checkTimeout_take silent u flushed.left
    refine ⟨fun f among sent => ?_, controls, given ++ s.window.frames.take n, queue, ?_, ?_⟩
    · rw [all f among] at sent
      cases sent
    · intro f among
      rcases List.mem_append.mp among with new | again
      · exact handedFirst f new
      · exact ⟨List.mem_of_mem_take again, all f (List.mem_of_mem_take again)⟩
    · rw [again, flushed.handed, List.map_take, Outgoing.map_image_of_unsent (unsent_flush s),
        List.map_append, List.map_take, List.append_assoc]
  · rw [checkTimeout_of_not_overdue upper u overdue]
    exact ⟨fun f => Emits.mem_of_sent (emits_flush s), controls, given, queue, handedFirst,
      flushed.handed⟩

end Silent

omit [Driver δ] in
private theorem Traces.length_image_le (h : s.Traces) :
    ∀ bytes ∈ s.window.frames.map Outgoing.image, bytes.length ≤ maxSize := by
  obtain ⟨-, tracing⟩ := h
  intro bytes among
  obtain ⟨f, inside, rfl⟩ := List.mem_map.mp among
  obtain ⟨frame, valid, image⟩ := tracing.image_eq inside
  rw [image]
  exact Frame.length_image_le (f := .data frame) valid

end LinkState

namespace Link

open LinkState Simulation

/-- When time passes, a link that is called by a silent layer above goes back or stays. Afterwards
no frame that was sent is overdue, and the window holds the same frames. If the oldest frame is
overdue and the driver has space, the driver is handed the control frames that wait, then the frames
that wait, then the whole window. If it is not, the frames that were sent are left as they are. -/
theorem process_goes_back {config : Config} {driver : δ} {l : Link δ ω}
    (started : ofConfig config driver = .ok l) (advances : Driver.Advances δ) {upper : Upper υ ω}
    (silent : upper.Silent) {u : υ} {acts : List (Act δ)}
    (forward : Forward upper (u, l) acts) :
    let m := Link.acts upper (u, l) acts
    let s := m.2.state
    let now := s.flush.clock
    let after := (m.2.process upper m.1).2.state
    s.clock ≤ now ∧
      (∀ f ∈ after.window.frames, f.phase = .sent → now - f.sentAt < config.timeout) ∧
      after.window.frames.map Outgoing.unsent = s.window.frames.map Outgoing.unsent ∧
      (∀ oldest, s.window.oldestSent? = some oldest → config.timeout ≤ now - oldest.sentAt →
        Driver.Ready 0 s.driver →
        handed after.journal =
          handed s.journal ++ s.control.waiting.map ControlFrame.image ++
            (s.window.frames.filter (·.phase = .pending)).map Outgoing.image ++
            s.window.frames.map Outgoing.image) ∧
      ((∀ oldest, s.window.oldestSent? = some oldest → now - oldest.sentAt < config.timeout) →
        (∀ f ∈ s.window.frames, f.phase = .sent → f ∈ after.window.frames) ∧
        ∃ (controls : List ControlFrame) (data : List Outgoing), controls <+: s.control.waiting ∧
          (∀ f ∈ data, f ∈ s.window.frames ∧ f.phase = .pending) ∧
          handed after.journal =
            handed s.journal ++ controls.map ControlFrame.image ++ data.map Outgoing.image) := by
  intro m s now after
  obtain ⟨valid, -⟩ := ofConfig_eq_ok_iff.mp started
  have settings : s.config = config := ((configured_ofConfig started).acts acts).state.settings
  have traces : s.Traces := traces_acts upper started u acts
  obtain ⟨-, rfl⟩ := ofConfig_eq_ok_iff.mp started
  have queued : s.Queued := (Queued.enduring advances upper).acts_of_tuned acts _
    (fun earlier driver later same before => before.mono (forward earlier driver later same))
    (.nil _)
  refine ⟨clock_flush_le advances s, ?_, ?_, ?_, ?_⟩
  · rw [← settings, ← config_flush]
    apply timely_checkTimeout silent m.1 advances (queued.flush advances)
    rw [config_flush, settings]
    exact valid.timeout
  · exact (unsent_checkTimeout silent m.1 s.flush).trans (unsent_flush s)
  · intro oldest first overdue ready
    exact handed_overdue silent m.1 queued first (settings ▸ overdue) ready traces.length_image_le
  · intro timely
    exact handed_timely silent m.1 queued (settings ▸ timely)

/-- Two of three frames go out at once, and the driver has no space for the third. When the first is
overdue and there is space, the third goes out first, and then all go out again. -/
theorem process_goes_back_starved :
    let driver : Wire := { budget := some 30 }
    let l : Link Wire Unit := ⟨.ofCapacity maxSize, .ofConfig {} driver⟩
    let acts : List (Act Wire) := [.send 7 [1], .send 7 [2], .send 7 [3], .tune { now := 100 }]
    let m := Link.acts idleUpper ((), l) acts
    let images := [DataFrame.image ⟨0, 7, [1]⟩, DataFrame.image ⟨1, 7, [2]⟩,
      DataFrame.image ⟨2, 7, [3]⟩]
    ofConfig {} driver = .ok l ∧ Driver.Advances Wire ∧ idleUpper.Silent ∧
      Forward idleUpper ((), l) acts ∧ handed m.2.state.journal = images.take 2 ∧
      handed (m.2.process idleUpper m.1).2.state.journal =
        images.take 2 ++ images.drop 2 ++ images := by
  intro driver l acts m images
  have started : ofConfig {} driver = .ok l := ofConfig_eq_ok_iff.mpr ⟨Config.valid_default, rfl⟩
  have advances : Driver.Advances Wire := fun _ _ => Nat.le_refl _
  have tuned : ∀ driver, .tune driver ∈ acts → Driver.clock driver = 100 := by
    intro driver among
    obtain rfl : driver = { now := 100 } := by simpa [acts] using among
    rfl
  have forward : Forward idleUpper ((), l) acts := forward_of_inits tuned (by decide +kernel)
  have sent : handed m.2.state.journal = images.take 2 := by decide +kernel
  refine ⟨started, advances, silent_idleUpper, forward, sent, ?_⟩
  obtain ⟨oldest, first⟩ : ∃ oldest, m.2.state.window.oldestSent? = some oldest :=
    Option.isSome_iff_exists.mp (by decide +kernel)
  have overdue : m.2.state.window.oldestSent?.all
      (100 ≤ m.2.state.flush.clock - ·.sentAt) = true := by
    decide +kernel
  rw [first] at overdue
  obtain ⟨-, -, -, again, -⟩ := process_goes_back started advances silent_idleUpper forward
  rw [again oldest first (of_decide_eq_true overdue) (ready_wire (Nat.zero_le 100) [])]
  decide +kernel

end Link

end FramedLink
