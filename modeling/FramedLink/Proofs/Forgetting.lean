import FramedLink.Proofs.Capacity
import FramedLink.Proofs.FramerReading
import FramedLink.Proofs.Indifference

/-! # What a reset forgets

A link that begins anew is a new link, but for its journal: no byte that was kept, no frame that
waited and no counter is left. The journal is only ever written on, so what stands below the entries
of the new beginning has no say in what the link does from then on.
-/

namespace FramedLink

open FramedLink.Frame FramedLink.Framing

variable {δ υ υ' ω α : Type}

private theorem SendWindow.Stocked.clear_eq {config : Config} {w : SendWindow}
    (h : w.Stocked config) :
    w.clear = .empty config.sendWindow (.ofSize maxSize config.sendBlocks) := by
  obtain ⟨capacity, blocks, blockSize, free, -, -⟩ := h.clear
  have frames := w.frames_clear
  have entered : w.clear.entered = 0 := rfl
  revert capacity blocks blockSize free frames entered
  obtain ⟨capacity, frames, ⟨blockSize, blocks, free⟩, entered⟩ := w.clear
  rintro rfl rfl rfl all rfl rfl
  have all : free = config.sendBlocks := all
  rw [all]
  rfl

theorem ControlQueue.capacity_push (q : ControlQueue) (f : ControlFrame) :
    (q.push f).capacity = q.capacity := by
  unfold push
  repeat' split
  all_goals rfl

private theorem Receiver.window_claimNack (r : Receiver) : r.claimNack.2.window = r.window := by
  unfold claimNack
  split <;> rfl

namespace LinkState

/-- The state with an earlier journal below its own. -/
def above (s : LinkState δ ω) (earlier : List (Entry ω)) : LinkState δ ω :=
  { s with journal := s.journal ++ earlier }

/-! ## The journal has no say -/

/-- The step is the same above every earlier journal. -/
def Overlooks (step : LinkState δ ω → α × LinkState δ ω) : Prop :=
  ∀ s earlier, step (s.above earlier) = ((step s).1, (step s).2.above earlier)

theorem Overlooks.bind {first : LinkState δ ω → α × LinkState δ ω}
    {second : α → LinkState δ ω → υ × LinkState δ ω} (overlooks : Overlooks first)
    (follows : ∀ a, Overlooks (second a)) :
    Overlooks fun s => second (first s).1 (first s).2 := by
  intro s earlier
  simp only [overlooks s earlier]
  exact follows _ _ _

variable [Driver δ]

private theorem handControls_above (queue : List ControlFrame) :
    Overlooks fun s : LinkState δ ω => handControls queue s := by
  intro s earlier
  induction queue generalizing s with
  | nil => rfl
  | cons f rest ih =>
    have space : (s.above earlier).space = s.space := rfl
    simp only [handControls, space]
    split
    · rfl
    · exact ih { s.hand f.image with status.tx.controlFrames := s.status.tx.controlFrames + 1 }

private theorem handPending_above (now : Nat) (frames : List Outgoing) :
    Overlooks fun s : LinkState δ ω => handPending now frames s := by
  intro s earlier
  induction frames generalizing s with
  | nil => rfl
  | cons f rest ih =>
    have space : (s.above earlier).space = s.space := rfl
    have handed : (s.above earlier).handOutgoing f = (s.handOutgoing f).above earlier := rfl
    simp only [handPending, space, handed, ih]
    split
    · rfl
    · split <;> rfl

theorem flush_above (s : LinkState δ ω) (earlier : List (Entry ω)) :
    (s.above earlier).flush = s.flush.above earlier := by
  have waiting : (s.above earlier).control.waiting = s.control.waiting := rfl
  have controls := handControls_above s.control.waiting s earlier
  simp only at controls
  unfold flush
  rw [waiting, controls]
  cases handControls s.control.waiting s with
  | mk queue t =>
    cases queue with
    | cons f rest => rfl
    | nil =>
      have pending := handPending_above t.clock t.window.frames t earlier
      exact congrArg
        (fun result => { result.2 with control.waiting := [], window.frames := result.1 }) pending

theorem send_above (metadata : Nat) (payload : Bytes) :
    Overlooks fun s : LinkState δ ω => s.send metadata payload := by
  intro s earlier
  have window : (s.above earlier).window = s.window := rfl
  have nextId : (s.above earlier).nextId = s.nextId := rfl
  simp only [send, window, nextId]
  split
  · rfl
  split
  · rfl
  split
  · rfl
  split
  · rfl
  cases s.window.push s.nextId (DataFrame.image ⟨s.nextId, metadata, payload⟩) with
  | none => rfl
  | some window =>
    let accepted : LinkState δ ω := { s with window, nextId := FrameId.next s.nextId }
    exact congrArg (Except.ok (), ·)
      (flush_above (accepted.note (.accepted metadata payload)) earlier)

theorem run_above (script : Script ω α) : Overlooks fun s : LinkState δ ω => s.run script := by
  induction script with
  | done => exact fun _ _ => rfl
  | send metadata payload next ih => exact (send_above metadata payload).bind ih
  | status next ih => exact fun s => ih s.status s
  | clock next ih => exact fun s => ih s.clock s
  | capacity next ih => exact fun s => ih s.sendCapacity s
  | remark r next ih => exact fun s => ih (s.log (.remarked r))

/-! ## Input and time -/

variable (upper : Upper υ ω)

theorem raise_above (u : υ) (event : Event) :
    Overlooks fun s : LinkState δ ω => s.raise upper u event := fun s =>
  run_above (upper.onEvent u event) (s.log (.raised event))

private theorem deliver_above (u : υ) (metadata : Nat) (payload : Bytes) :
    Overlooks fun s : LinkState δ ω => s.deliver upper u metadata payload := fun s =>
  run_above (upper.onData u metadata payload) (s.log (.delivered metadata payload))

theorem takeData_above (u : υ) (f : DataFrame) :
    Overlooks fun s : LinkState δ ω => s.takeData upper u f := by
  intro s earlier
  have receiver : (s.above earlier).receiver = s.receiver := rfl
  simp only [takeData, receiver]
  cases s.receiver.classify f.id with
  | mk disposition receiver =>
    cases disposition with
    | accept =>
      let delivered : LinkState δ ω := { s with
        receiver := receiver.accept
        status.rx.dataFrames := s.status.rx.dataFrames + 1 }
      exact deliver_above upper u f.metadata f.payload (delivered.queue .ackAll receiver.expected)
        earlier
    | duplicate => rfl
    | ahead nack => cases nack <;> rfl
    | beyond => rfl

private theorem acknowledge_above (u : υ) (released : Nat) :
    Overlooks fun s : LinkState δ ω => s.acknowledge upper u released := by
  intro s earlier
  have same : (s.above earlier).disconnected = s.disconnected := rfl
  by_cases none : released = 0
  · simp only [acknowledge, none, if_true]
  · cases silent : s.disconnected with
    | true =>
      simp only [acknowledge, note, none, same, silent, if_true, if_false]
      exact raise_above upper u .connected { s.release released with disconnected := false } earlier
    | false =>
      simp only [acknowledge, note, none, same, silent, if_false, Bool.false_eq_true]
      rfl

theorem takeControl_above (u : υ) (f : ControlFrame) :
    Overlooks fun s : LinkState δ ω => s.takeControl upper u f := by
  intro s earlier
  by_cases reset : f.control = .reset
  · simp only [takeControl, reset]
    split
    · have told : Overlooks fun s : LinkState δ ω =>
          (s.raise upper u .reset).2.raise upper (s.raise upper u .reset).1 .connected :=
        (raise_above upper u .reset).bind fun u => raise_above upper u .connected
      exact told ({ s.clear with disconnected := false }.queue .reset resetResponse) earlier
    · exact raise_above upper u .connected { s with disconnected := false } earlier
  · simp only [takeControl_eq_acknowledge upper u _ reset]
    exact acknowledge_above upper u _ { s with window := (s.window.answer f).2 } earlier

private theorem takeNotice_above (notice : Notice) (u : υ) :
    Overlooks fun s : LinkState δ ω => takeNotice upper (u, s) notice := by
  intro s earlier
  let counted : LinkState δ ω := { s with status := s.status.withCounters notice.counters }
  simp only [takeNotice]
  split
  · next f _ => exact takeData_above upper u f counted earlier
  · next f _ => exact takeControl_above upper u f counted earlier
  · rfl

private theorem takeNotices_above (notices : List Notice) (u : υ) :
    Overlooks fun s : LinkState δ ω => notices.foldl (takeNotice upper) (u, s) := by
  induction notices generalizing u with
  | nil => exact fun _ _ => rfl
  | cons notice rest ih => exact (takeNotice_above upper notice u).bind ih

private theorem checkTimeout_above (u : υ) :
    Overlooks fun s : LinkState δ ω => s.checkTimeout upper u := by
  intro s earlier
  have window : (s.above earlier).window = s.window := rfl
  have clock : (s.above earlier).clock = s.clock := rfl
  have config : (s.above earlier).config = s.config := rfl
  have disconnected : (s.above earlier).disconnected = s.disconnected := rfl
  have again (u : υ) : Overlooks fun s : LinkState δ ω =>
      (u, { s with window := s.window.rewind }.flush) := fun s earlier =>
    congrArg (u, ·) (flush_above { s with window := s.window.rewind } earlier)
  simp only [checkTimeout, window, clock, config, disconnected]
  split
  · rfl
  split
  · rfl
  split
  · exact (raise_above upper u .disconnected).bind again { s with disconnected := true } earlier
  · exact again u s earlier

/-! ## What a configuration decides -/

/-- What a link keeps of its configuration, whatever happens to it. -/
structure Configured (config : Config) (s : LinkState δ ω) : Prop where
  settings : s.config = config
  window : s.window.Stocked config
  receiver : s.receiver.window = config.receiveWindow
  control : s.control.capacity = config.controlFrames

theorem lasting_configured (config : Config) :
    Lasting upper fun _ (s : LinkState δ ω) => s.Configured config where
  emission := by
    intro u s s' emission h
    have window : s'.window.Stocked config :=
      (lasting_stocked upper config).emission (u := u) emission h.window
    cases emission with
    | handControl => exact ⟨h.settings, window, h.receiver, h.control⟩
    | handData => exact ⟨h.settings, window, h.receiver, h.control⟩
    | accept => exact ⟨h.settings, window, h.receiver, h.control⟩
    | remark => exact ⟨h.settings, window, h.receiver, h.control⟩
  reaction := by
    intro u s s' happening calls reaction h
    have window : s'.window.Stocked config :=
      (lasting_stocked upper config).reaction (u := u) reaction h.window
    have queued (f : ControlFrame) : (s.control.push f).capacity = config.controlFrames :=
      (s.control.capacity_push f).trans h.control
    cases reaction with
    | accept => exact ⟨h.settings, window, h.receiver, queued _⟩
    | again => exact ⟨h.settings, window, h.receiver, queued _⟩
    | ask => exact ⟨h.settings, window, h.receiver, queued _⟩
    | pass => exact ⟨h.settings, window, h.receiver, h.control⟩
    | keep => exact ⟨h.settings, window, h.receiver, h.control⟩
    | release => exact ⟨h.settings, window, h.receiver, h.control⟩
    | resume => exact ⟨h.settings, window, h.receiver, h.control⟩
    | request =>
      exact ⟨h.settings, window, h.receiver, (s.control.clear.capacity_push _).trans h.control⟩
    | response => exact ⟨h.settings, window, h.receiver, h.control⟩
    | lost => exact ⟨h.settings, window, s.receiver.window_claimNack.trans h.receiver, queued _⟩
  told _ h := ⟨h.settings, h.window, h.receiver, h.control⟩
  counted _ h := ⟨h.settings, h.window, h.receiver, h.control⟩
  disconnected h := ⟨h.settings, h.window, h.receiver, h.control⟩
  rewind h := ⟨h.settings, h.window.rewind, h.receiver, h.control⟩
  restarted h :=
    ⟨h.settings, h.window.clear, h.receiver, (ControlQueue.capacity_push _ _).trans h.control⟩
  driver _ h := ⟨h.settings, h.window, h.receiver, h.control⟩

omit [Driver δ] in
/-- A state that is begun anew is, above its journal, a new state that is begun anew. -/
theorem Configured.restarted_eq {config : Config} {s : LinkState δ ω} (h : s.Configured config) :
    s.restarted = (ofConfig config s.driver).restarted.above s.journal := by
  have window := h.window.clear_eq
  have receiver : s.receiver.reset = { window := config.receiveWindow } :=
    congrArg (fun window => ({ window } : Receiver)) h.receiver
  have control : s.control.clear = { capacity := config.controlFrames } :=
    congrArg (fun capacity => ({ capacity } : ControlQueue)) h.control
  unfold restarted clear
  rw [window, receiver, control, h.settings]
  rfl

end LinkState

namespace Link

/-- The link with an earlier journal below its own. -/
def above (l : Link δ ω) (earlier : List (Entry ω)) : Link δ ω :=
  { l with state := l.state.above earlier }

section Above

variable [Driver δ] (upper : Upper υ ω) (earlier : List (Entry ω))

theorem act_above (act : Act δ) (u : υ) (l : Link δ ω) :
    Link.act upper (u, l.above earlier) act =
      ((Link.act upper (u, l) act).1, (Link.act upper (u, l) act).2.above earlier) := by
  cases act with
  | send metadata payload =>
    have sent := LinkState.send_above metadata payload l.state earlier
    exact congrArg (fun result => (u, { l with state := result.2 })) sent
  | receive chunk =>
    have taken := LinkState.takeNotices_above upper (l.framer.receive chunk).2 u l.state earlier
    let counted (s : LinkState δ ω) : LinkState δ ω :=
      { s with status := s.status.withCounters (l.framer.receive chunk).1.counters }
    have received := congrArg
      (fun us => (us.1, (⟨(l.framer.receive chunk).1, (counted us.2).flush⟩ : Link δ ω))) taken
    refine received.trans (Prod.ext rfl ?_)
    exact congrArg (Link.mk _) (LinkState.flush_above (counted _) earlier)
  | process =>
    have flushed := LinkState.flush_above l.state earlier
    have checked := LinkState.checkTimeout_above upper u l.state.flush earlier
    rw [← flushed] at checked
    exact congrArg (fun us => (us.1, { l with state := us.2 })) checked
  | reset =>
    refine Prod.ext rfl ?_
    exact congrArg (Link.mk _) (LinkState.flush_above l.state.restarted earlier)
  | tune driver => rfl

private theorem acts_above (acts : List (Act δ)) (u : υ) (l : Link δ ω) :
    Link.acts upper (u, l.above earlier) acts =
      ((Link.acts upper (u, l) acts).1, (Link.acts upper (u, l) acts).2.above earlier) := by
  induction acts generalizing u l with
  | nil => rfl
  | cons act rest ih =>
    have first := act_above upper earlier act u l
    show Link.acts upper (Link.act upper (u, l.above earlier) act) rest = _
    rw [first]
    exact ih _ _

private theorem answers_above (acts : List (Act δ)) (u : υ) (l : Link δ ω) :
    answers upper (u, l.above earlier) acts = answers upper (u, l) acts := by
  induction acts generalizing u l with
  | nil => rfl
  | cons act rest ih =>
    have first := act_above upper earlier act u l
    have others := ih (Link.act upper (u, l) act).1 (Link.act upper (u, l) act).2
    rw [← first] at others
    cases act with
    | send metadata payload =>
      have sent := LinkState.send_above metadata payload l.state earlier
      exact congrArg₂ List.cons (Prod.ext_iff.mp sent).1 others
    | _ => exact others

end Above

/-! ## A link that begins anew -/

/-- What a link keeps of its configuration, whatever is done with it. -/
structure Configured (config : Config) (l : Link δ ω) : Prop where
  settled : l.framer.Settled
  storage : l.framer.capacity = max config.receiveStorage maxSize
  state : l.state.Configured config

section Reset

variable [Driver δ] {config : Config}

theorem configured_ofConfig {driver : δ} {l : Link δ ω} (started : ofConfig config driver = .ok l) :
    l.Configured config := by
  have window := stocked_ofConfig started
  obtain ⟨-, rfl⟩ := ofConfig_eq_ok_iff.mp started
  exact ⟨Framer.settled_ofCapacity _, rfl, rfl, window, rfl, rfl⟩

theorem Configured.act {upper : Upper υ ω} {ul : υ × Link δ ω} (h : ul.2.Configured config)
    (act : Act δ) : (Link.act upper ul act).2.Configured config := by
  have state := (LinkState.lasting_configured upper config).act act ul h.state
  cases act with
  | receive chunk =>
    have read := Framer.reads_receive h.settled chunk
    exact ⟨read.settled, read.capacity.trans h.storage, state⟩
  | reset =>
    have settled : ul.2.framer.reset.clearCounters.Settled := by
      rw [Framer.clearCounters_reset]
      exact ⟨.inl rfl, rfl⟩
    exact ⟨settled, h.storage, state⟩
  | send => exact ⟨h.settled, h.storage, state⟩
  | process => exact ⟨h.settled, h.storage, state⟩
  | tune => exact ⟨h.settled, h.storage, state⟩

theorem Configured.acts {upper : Upper υ ω} {ul : υ × Link δ ω} (h : ul.2.Configured config)
    (acts : List (Act δ)) : (Link.acts upper ul acts).2.Configured config := by
  induction acts generalizing ul with
  | nil => exact h
  | cons act rest ih => exact ih (h.act act)

private theorem Configured.reset_eq {l new : Link δ ω} (h : l.Configured config)
    (started : ofConfig config l.state.driver = .ok new) :
    l.reset = new.reset.above l.state.journal := by
  obtain ⟨-, rfl⟩ := ofConfig_eq_ok_iff.mp started
  have framer : l.framer.reset.clearCounters =
      (Framer.ofCapacity config.receiveStorage).reset.clearCounters := by
    rw [Framer.clearCounters_reset, h.storage, Framer.clearCounters_reset]
    rfl
  have state := congrArg LinkState.flush h.state.restarted_eq
  rw [LinkState.flush_above] at state
  exact congrArg₂ Link.mk framer state

open Simulation

/-- After any run, to begin anew is to forget everything. The link goes on like a new link of the
same configuration, over the driver as it is now, that begins anew as well: whatever is done with
both and whoever is the layer above, it is called in the same way and gets the same answers, the
driver is handed the same bytes, and both tell the same about themselves. -/
theorem reset_acts {driver : δ} {l : Link δ ω} (started : ofConfig config driver = .ok l)
    (upper : Upper υ ω) (u : υ) (acts : List (Act δ)) :
    let old := (Link.acts upper (u, l) acts).2
    ∃ new, ofConfig config old.state.driver = .ok new ∧
      ∀ {υ' : Type} (upper' : Upper υ' ω) (u' : υ') (later : List (Act δ)),
        let ran := Link.acts upper' (u', old.reset) later
        let ran' := Link.acts upper' (u', new.reset) later
        let m := ran.2
        let m' := ran'.2
        m = m'.above old.state.journal ∧ ran.1 = ran'.1 ∧
          answers upper' (u', old.reset) later = answers upper' (u', new.reset) later ∧
            m.state.journal = m'.state.journal ++ old.state.journal ∧
              m.state.driver = m'.state.driver ∧ m.status = m'.status ∧
                m.inFlight = m'.inFlight ∧ m.sendCapacity = m'.sendCapacity ∧
                  m.serviceInterval = m'.serviceInterval ∧
                    m.state.disconnected = m'.state.disconnected := by
  intro old
  have valid := (ofConfig_eq_ok_iff.mp started).1
  have kept : old.Configured config := (configured_ofConfig started).acts acts
  refine ⟨_, ofConfig_eq_ok_iff.mpr ⟨valid, rfl⟩, ?_⟩
  intro υ' upper' u' later
  have anew := kept.reset_eq (ofConfig_eq_ok_iff.mpr ⟨valid, rfl⟩)
  rw [anew, acts_above, answers_above]
  exact ⟨rfl, rfl, rfl, rfl, rfl, rfl, rfl, rfl, rfl, rfl⟩

/-- A link that has sent and received, with the start of a frame in its framer and a frame that was
sent in vain, begins anew. Of the rest of that frame, and of the frame that comes behind it, it
makes what a new link makes of them. -/
theorem reset_forgotten :
    let l : Link Wire Remark := ⟨.ofCapacity maxSize, .ofConfig { retries := 1 } {}⟩
    let image := DataFrame.image ⟨0, 3, [5]⟩
    let acts : List (Act Wire) := [.send 7 [1], .receive (0xAA :: image ++ image.take 9),
      .tune { now := 100, budget := some 20 }, .process]
    let later : List (Act Wire) := [.receive (image.drop 9 ++ image), .send 9 [2], .send 9 [3]]
    let old := (Link.acts echoer ((), l) acts).2
    let m := (Link.acts echoer ((), old.reset) later).2
    ofConfig { retries := 1 } {} = .ok l ∧ old.framer.buffer.length = 9 ∧ old.inFlight = 2 ∧
      old.state.disconnected = true ∧ old.status.rx.resyncs = 1 ∧
        ∃ new, ofConfig { retries := 1 } old.state.driver = .ok new ∧
          let m' := (Link.acts echoer ((), new.reset) later).2
          m = m'.above old.state.journal ∧ m.status = m'.status ∧ m.inFlight = 3 ∧
            (Journal.tally m'.state.journal).deliveries = [(3, [5])] := by
  intro l image acts later old m
  have started : ofConfig { retries := 1 } {} = .ok l :=
    ofConfig_eq_ok_iff.mpr ⟨Config.validate_eq_ok_iff.mp rfl, rfl⟩
  obtain ⟨new, fresh, same⟩ := reset_acts started echoer () acts
  obtain ⟨above, -, -, -, -, status, inFlight, -⟩ := same echoer () later
  refine ⟨started, ?_, ?_, ?_, ?_, new, fresh, above, status, ?_, ?_⟩
  · decide +kernel
  · decide +kernel
  · decide +kernel
  · decide +kernel
  · decide +kernel
  · rw [(ofConfig_eq_ok_iff.mp fresh).2]
    decide +kernel

end Reset

end Link

end FramedLink
