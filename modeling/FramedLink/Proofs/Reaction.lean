import FramedLink.Proofs.Emission

/-! # How a link reacts

To what a framer gives notice of, a link reacts in one of ten ways, and then it tells the layer
above. A reaction is one of these ways together with what has to be the case for it, and with the
calls to the layer above that follow.
-/

namespace FramedLink

open FramedLink.Frame

variable {δ ω υ : Type} [Driver δ]

/-- What the layer above is told. -/
inductive Call where
  | event (event : Event)
  | data (metadata : Nat) (payload : Bytes)
  deriving DecidableEq, Repr

/-- What a call leaves in the journal. -/
def Call.action : Call → Action ω
  | event e => .raised e
  | data metadata payload => .delivered metadata payload

/-- What the window makes of an answer of the peer: how many frames it releases, and the window
without them. -/
def SendWindow.answer (w : SendWindow) (f : ControlFrame) : Nat × SendWindow :=
  match f.control with
  | .ackAll => w.ackThrough f.id
  | .ackOne =>
    let (found, w) := w.ackOne f.id
    (found.toNat, w)
  | .nackId | .nackFraming => (w.nack f.id).getD (0, w)
  | .reset => (0, w)

namespace LinkState

/-! ## Telling the layer above -/

def tell (upper : Upper υ ω) (us : υ × LinkState δ ω) : Call → υ × LinkState δ ω
  | .event event => us.2.raise upper us.1 event
  | .data metadata payload => us.2.deliver upper us.1 metadata payload

def tellAll (upper : Upper υ ω) (us : υ × LinkState δ ω) (calls : List Call) :
    υ × LinkState δ ω :=
  calls.foldl (tell upper) us

theorem utters_tell (upper : Upper υ ω) (us : υ × LinkState δ ω) (call : Call) :
    Utters (us.2.log call.action) (tell upper us call).2 := by
  cases call with
  | event event => exact utters_run _ _
  | data metadata payload => exact utters_run _ _

theorem emits_tell (upper : Upper υ ω) (us : υ × LinkState δ ω) (call : Call) :
    Emits (us.2.log call.action) (tell upper us call).2 :=
  Utters.emits (utters_tell upper us call)

theorem keep_tellAll {P : LinkState δ ω → Prop} (step : ∀ {s s'}, Emission s s' → P s → P s')
    (log : ∀ {s} (call : Call), P s → P (s.log call.action)) (upper : Upper υ ω)
    (calls : List Call) (us : υ × LinkState δ ω) (holds : P us.2) :
    P (tellAll upper us calls).2 := by
  induction calls generalizing us with
  | nil => exact holds
  | cons call rest ih => exact ih _ ((emits_tell upper us call).keep step (log call holds))

/-! ## Reactions -/

/-- Frames are counted as acknowledged. -/
def release (s : LinkState δ ω) (count : Nat) : LinkState δ ω :=
  { s with status.tx.dataFrames := s.status.tx.dataFrames + count }.note (.released count)

/-- The reaction to something that a framer gives notice of, and the calls that follow. -/
inductive Reaction (s : LinkState δ ω) :
    Framing.Happening → LinkState δ ω → List Call → Prop where
  | accept {f : DataFrame} (next : FrameId.distance f.id s.receiver.expected = 0) :
      Reaction s (.frame (.data f))
        ({ s with
            receiver := s.receiver.accept
            status.rx.dataFrames := s.status.rx.dataFrames + 1 }.queue
          .ackAll s.receiver.expected)
        [.data f.metadata f.payload]
  /-- The frame was delivered before. -/
  | again {f : DataFrame} (behind : FrameId.distance f.id s.receiver.expected < 0) :
      Reaction s (.frame (.data f)) (s.queue .ackAll s.receiver.lastDelivered) []
  | ask {f : DataFrame} (ahead : 0 < FrameId.distance f.id s.receiver.expected)
      (near : FrameId.distance f.id s.receiver.expected ≤ s.receiver.window)
      (unasked : s.receiver.asked ≠ some s.receiver.expected) :
      Reaction s (.frame (.data f))
        ({ s with
            receiver.asked := some s.receiver.expected
            status.rx.idErrors := s.status.rx.idErrors + 1 }.queue .nackId s.receiver.expected)
        []
  /-- A frame too early that is not asked for: it lies too far ahead, or it has been asked for. -/
  | pass {f : DataFrame} (ahead : 0 < FrameId.distance f.id s.receiver.expected)
      (reason : s.receiver.window < FrameId.distance f.id s.receiver.expected ∨
        s.receiver.asked = some s.receiver.expected) :
      Reaction s (.frame (.data f))
        { s with status.rx.idErrors := s.status.rx.idErrors + 1 } []
  /-- An answer that releases nothing; it may still call for the frames of the window again. -/
  | keep {f : ControlFrame} (answer : f.control ≠ .reset)
      (released : (s.window.answer f).1 = 0) :
      Reaction s (.frame (.control f)) { s with window := (s.window.answer f).2 } []
  | release {f : ControlFrame} (answer : f.control ≠ .reset)
      (released : 0 < (s.window.answer f).1) (connected : s.disconnected = false) :
      Reaction s (.frame (.control f))
        ({ s with window := (s.window.answer f).2 }.release (s.window.answer f).1) []
  /-- The first answer that releases frames after a disconnection. -/
  | resume {f : ControlFrame} (answer : f.control ≠ .reset)
      (released : 0 < (s.window.answer f).1) (silent : s.disconnected = true) :
      Reaction s (.frame (.control f))
        { { s with window := (s.window.answer f).2 }.release (s.window.answer f).1 with
          disconnected := false }
        [.event .connected]
  | request {f : ControlFrame} (reset : f.control = .reset) (asks : f.id = resetRequest) :
      Reaction s (.frame (.control f))
        ({ s.clear with disconnected := false }.queue .reset resetResponse)
        [.event .reset, .event .connected]
  | response {f : ControlFrame} (reset : f.control = .reset) (answers : f.id ≠ resetRequest) :
      Reaction s (.frame (.control f)) { s with disconnected := false } [.event .connected]
  | lost : Reaction s .lost s.takeLoss []

section Taking

variable (upper : Upper υ ω) (u : υ) (s : LinkState δ ω)

theorem reaction_takeData (f : DataFrame) :
    ∃ s' calls, Reaction s (.frame (.data f)) s' calls ∧
      s.takeData upper u f = tellAll upper (u, s') calls := by
  unfold takeData Receiver.classify
  by_cases next : FrameId.distance f.id s.receiver.expected = 0
  · simp only [next, if_true]
    exact ⟨_, _, .accept next, rfl⟩
  by_cases behind : FrameId.distance f.id s.receiver.expected < 0
  · simp only [next, behind, if_true, if_false]
    exact ⟨_, _, .again behind, rfl⟩
  have ahead : 0 < FrameId.distance f.id s.receiver.expected := by omega
  by_cases near : FrameId.distance f.id s.receiver.expected ≤ s.receiver.window
  · simp only [next, behind, near, if_true, if_false, Receiver.claimNack]
    by_cases asked : s.receiver.asked = some s.receiver.expected
    · simp only [asked, if_true]
      exact ⟨_, _, .pass ahead (.inr asked), rfl⟩
    · simp only [asked, if_false]
      exact ⟨_, _, .ask ahead near asked, rfl⟩
  · simp only [next, behind, near, if_false]
    exact ⟨_, _, .pass ahead (.inl (Int.lt_of_not_ge near)), rfl⟩

theorem takeControl_eq_acknowledge {f : ControlFrame} (answer : f.control ≠ .reset) :
    s.takeControl upper u f =
      { s with window := (s.window.answer f).2 }.acknowledge upper u (s.window.answer f).1 := by
  obtain ⟨control, id⟩ := f
  have asked : s.goBack upper u id =
      { s with window := ((s.window.nack id).getD (0, s.window)).2 }.acknowledge upper u
        ((s.window.nack id).getD (0, s.window)).1 := by
    unfold goBack
    cases s.window.nack id with
    | none => rfl
    | some result => rfl
  cases control with
  | ackAll => rfl
  | ackOne => rfl
  | nackId => exact asked
  | nackFraming => exact asked
  | reset => exact absurd rfl answer

theorem reaction_takeControl (f : ControlFrame) :
    ∃ s' calls, Reaction s (.frame (.control f)) s' calls ∧
      s.takeControl upper u f = tellAll upper (u, s') calls := by
  by_cases reset : f.control = .reset
  · unfold takeControl
    simp only [reset]
    by_cases asks : f.id = resetRequest
    · simp only [asks, if_true]
      exact ⟨_, _, .request reset asks, rfl⟩
    · simp only [asks, if_false]
      exact ⟨_, _, .response reset asks, rfl⟩
  · rw [takeControl_eq_acknowledge upper u s reset]
    unfold acknowledge
    by_cases none : (s.window.answer f).1 = 0
    · rw [if_pos none]
      exact ⟨_, _, .keep reset none, rfl⟩
    · rw [if_neg none]
      have some := Nat.pos_of_ne_zero none
      cases silent : s.disconnected with
      | false =>
        refine ⟨_, _, .release reset some silent, ?_⟩
        simp only [note, silent, Bool.false_eq_true, if_false]
        rfl
      | true =>
        refine ⟨_, _, .resume reset some silent, ?_⟩
        simp only [note, silent, if_true]
        rfl

/-- To take a notice is to react and to tell the layer above. -/
theorem reaction_takeNotice (notice : Framing.Notice) :
    ∃ s' calls,
      Reaction { s with status := s.status.withCounters notice.counters } notice.happening s'
        calls ∧
      takeNotice upper (u, s) notice = tellAll upper (u, s') calls := by
  unfold takeNotice
  cases notice.happening with
  | frame f =>
    cases f with
    | data f => exact reaction_takeData upper u _ f
    | control f => exact reaction_takeControl upper u _ f
  | lost => exact ⟨_, _, .lost, rfl⟩

end Taking

/-! ## The reaction as a function -/

/-- What a link becomes of a data frame, and what it then tells the layer above. -/
def reactData (s : LinkState δ ω) (f : DataFrame) : LinkState δ ω × List Call :=
  let ahead := FrameId.distance f.id s.receiver.expected
  if ahead = 0 then
    ({ s with
        receiver := s.receiver.accept
        status.rx.dataFrames := s.status.rx.dataFrames + 1 }.queue .ackAll s.receiver.expected,
      [.data f.metadata f.payload])
  else if ahead < 0 then (s.queue .ackAll s.receiver.lastDelivered, [])
  else
    let early := { s with status.rx.idErrors := s.status.rx.idErrors + 1 }
    if ahead ≤ s.receiver.window ∧ s.receiver.asked ≠ some s.receiver.expected then
      ({ early with receiver.asked := some s.receiver.expected }.queue .nackId
        s.receiver.expected, [])
    else (early, [])

def reactControl (s : LinkState δ ω) (f : ControlFrame) : LinkState δ ω × List Call :=
  if f.control = .reset then
    if f.id = resetRequest then
      ({ s.clear with disconnected := false }.queue .reset resetResponse,
        [.event .reset, .event .connected])
    else ({ s with disconnected := false }, [.event .connected])
  else
    let (count, window) := s.window.answer f
    if count = 0 then ({ s with window }, [])
    else
      let released := { s with window }.release count
      if s.disconnected then ({ released with disconnected := false }, [.event .connected])
      else (released, [])

def react (s : LinkState δ ω) : Framing.Happening → LinkState δ ω × List Call
  | .frame (.data f) => s.reactData f
  | .frame (.control f) => s.reactControl f
  | .lost => (s.takeLoss, [])

omit [Driver δ] in
/-- There is only one way to react. -/
theorem Reaction.react_eq {s s' : LinkState δ ω} {happening : Framing.Happening}
    {calls : List Call} (reaction : Reaction s happening s' calls) :
    s.react happening = (s', calls) := by
  cases reaction with
  | accept next => simp [react, reactData, next]
  | again behind => simp [react, reactData, behind, Int.ne_of_lt behind]
  | ask ahead near unasked =>
    have notBehind := Int.not_lt.mpr (Int.le_of_lt ahead)
    simp [react, reactData, near, unasked, Int.ne_of_gt ahead, notBehind]
  | @pass f ahead reason =>
    have notBehind := Int.not_lt.mpr (Int.le_of_lt ahead)
    have refused : ¬ (FrameId.distance f.id s.receiver.expected ≤ s.receiver.window ∧
        s.receiver.asked ≠ some s.receiver.expected) := by
      rintro ⟨near, unasked⟩
      exact reason.elim (Int.not_lt.mpr near) unasked
    simp only [react, reactData, Int.ne_of_gt ahead, notBehind, refused, if_false]
  | keep answer released => simp [react, reactControl, answer, released]
  | release answer released connected =>
    simp [react, reactControl, answer, Nat.ne_of_gt released, connected]
  | resume answer released silent =>
    simp [react, reactControl, answer, Nat.ne_of_gt released, silent]
  | request reset asks => simp [react, reactControl, reset, asks]
  | response reset answers => simp [react, reactControl, reset, answers]
  | lost => rfl

/-! ## Time -/

/-- When the oldest frame is due, the layer above is told of a disconnection if there is one, and
the frames of the window are to be handed over again. -/
theorem checkTimeout_cases (upper : Upper υ ω) (u : υ) (s : LinkState δ ω) :
    s.checkTimeout upper u = (u, s) ∨
      (∃ oldest, s.window.oldestSent? = some oldest ∧
        s.config.timeout ≤ s.clock - oldest.sentAt ∧
        s.checkTimeout upper u = (u, { s with window := s.window.rewind }.flush)) ∨
      (∃ oldest, s.window.oldestSent? = some oldest ∧
        s.config.timeout ≤ s.clock - oldest.sentAt ∧
        s.config.retries ≤ oldest.attempts ∧ s.disconnected = false ∧
        let told := tell upper (u, { s with disconnected := true }) (.event .disconnected)
        s.checkTimeout upper u =
          (told.1, { told.2 with window := told.2.window.rewind }.flush)) := by
  unfold checkTimeout
  cases s.window.oldestSent? with
  | none => exact .inl rfl
  | some oldest =>
    simp only
    split
    · exact .inl rfl
    · next due =>
      right
      split
      · next silent =>
        exact .inr ⟨oldest, rfl, Nat.le_of_not_lt due, silent.1, silent.2, rfl⟩
      · exact .inl ⟨oldest, rfl, Nat.le_of_not_lt due, rfl⟩

theorem keep_checkTimeout {P : LinkState δ ω → Prop}
    (step : ∀ {s s'}, Emission s s' → P s → P s')
    (log : ∀ {s} (call : Call), P s → P (s.log call.action))
    (disconnected : ∀ {s}, P s → P { s with disconnected := true })
    (rewind : ∀ {s}, P s → P { s with window := s.window.rewind }) (upper : Upper υ ω) (u : υ)
    {s : LinkState δ ω} (holds : P s) : P (s.checkTimeout upper u).2 := by
  rcases checkTimeout_cases upper u s with same | ⟨_, _, _, same⟩ | ⟨_, _, _, _, _, same⟩
  · rw [same]
    exact holds
  · rw [same]
    exact (emits_flush _).keep step (rewind holds)
  · rw [same]
    have told := keep_tellAll step log upper [.event .disconnected]
      (u, { s with disconnected := true }) (disconnected holds)
    exact (emits_flush _).keep step (rewind told)

end LinkState

end FramedLink
