import FramedLink.Proofs.Capacity
import FramedLink.Proofs.Exhausting
import FramedLink.Proofs.Meeting
import FramedLink.Simulation.Application
import FramedLink.Simulation.Wire

/-! # The moments at which something is handed over

Frames are handed over by flushes only, one after the other. From the state that is flushed follows
at which moments that is, and from an act which states are flushed in it: when the layer above has
sent, at the end of what was received, and when time has passed. At each of these moments the driver
has space for the frame, and no control frame waits if it is a data frame. When the link is left to
itself again, nothing more can be handed over.
-/

namespace FramedLink

open FramedLink.Frame FramedLink.Journal

/-- What is handed over at once. -/
inductive Parcel where
  | control (f : ControlFrame)
  | data (f : Outgoing)
  deriving DecidableEq, Repr

namespace Parcel

def image : Parcel → Bytes
  | control f => f.image
  | data f => f.image

def isData : Parcel → Bool
  | control _ => false
  | data _ => true

end Parcel

variable {δ ω υ α : Type} [Driver δ]

namespace LinkState

/-- A frame that is handed over, and the state of the link right before. -/
structure Moment (δ ω : Type) where
  state : LinkState δ ω
  parcel : Parcel

/-- What is handed over has its turn, and the driver has space for it. -/
structure Moment.Due (m : Moment δ ω) : Prop where
  space : m.parcel.image.length ≤ m.state.space
  turn : m.parcel.isData = true → m.state.control.waiting = []

/-! ## The moments of a flush -/

/-- The moments at which the control frames of a queue are handed over. -/
def controlMoments : (queue : List ControlFrame) → LinkState δ ω → List (Moment δ ω)
  | [], _ => []
  | f :: rest, s =>
    if s.space < controlSize then []
    else
      ⟨{ s with control.waiting := f :: rest }, .control f⟩ ::
        controlMoments rest { s.hand f.image with
          status.tx.controlFrames := s.status.tx.controlFrames + 1 }

/-- The moments at which data frames are handed over, when no control frame waits any more. The
frames `sent` are in front of them in the window. -/
def dataMoments (now : Nat) : (sent frames : List Outgoing) → LinkState δ ω → List (Moment δ ω)
  | _, [], _ => []
  | sent, f :: rest, s =>
    if f.phase = .sent then dataMoments now (sent ++ [f]) rest s
    else if s.space < f.image.length then []
    else
      ⟨{ s with control.waiting := [], window.frames := sent ++ f :: rest }, .data f⟩ ::
        dataMoments now (sent ++ [f.markSent now]) rest (s.handOutgoing f)

/-- The moments at which something is handed over when the link is flushed. -/
def moments (s : LinkState δ ω) : List (Moment δ ω) :=
  controlMoments s.control.waiting s ++
    match handControls s.control.waiting s with
    | (_ :: _, _) => []
    | ([], s) => dataMoments s.clock [] s.window.frames s

/-- A frame is handed over: the first control frame, or a data frame when no control frame waits. -/
inductive Leaves : LinkState δ ω → Parcel → LinkState δ ω → Prop where
  | control {s : LinkState δ ω} {f : ControlFrame} {rest : List ControlFrame}
      (first : s.control.waiting = f :: rest) (space : controlSize ≤ s.space) :
      Leaves s (.control f) { s.hand f.image with
        control.waiting := rest
        status.tx.controlFrames := s.status.tx.controlFrames + 1 }
  | data {s : LinkState δ ω} {sent rest : List Outgoing} {f : Outgoing} (now : Nat)
      (none : s.control.waiting = []) (frames : s.window.frames = sent ++ f :: rest)
      (space : f.image.length ≤ s.space) :
      Leaves s (.data f)
        { s.handOutgoing f with window.frames := sent ++ f.markSent now :: rest }

theorem Leaves.due {s s' : LinkState δ ω} {parcel : Parcel} (leaves : Leaves s parcel s') :
    Moment.Due ⟨s, parcel⟩ := by
  cases leaves with
  | @control f _ _ space =>
    refine ⟨?_, nofun⟩
    show f.image.length ≤ s.space
    rw [ControlFrame.length_image]
    exact space
  | data _ none _ space => exact ⟨space, fun _ => none⟩

private theorem Leaves.handed_eq {s s' : LinkState δ ω} {parcel : Parcel}
    (leaves : Leaves s parcel s') : handed s'.journal = handed s.journal ++ [parcel.image] := by
  cases leaves with
  | control => rfl
  | data => rfl

/-- From one state to another, one frame after the other is handed over at these moments, and
nothing else is done. -/
inductive Passes : LinkState δ ω → List (Moment δ ω) → LinkState δ ω → Prop where
  | nothing (s : LinkState δ ω) : Passes s [] s
  | leave {s s' t : LinkState δ ω} {parcel : Parcel} {later : List (Moment δ ω)}
      (leaves : Leaves s parcel s') (passes : Passes s' later t) :
      Passes s (⟨s, parcel⟩ :: later) t

section Passes

variable {s t r : LinkState δ ω} {earlier later : List (Moment δ ω)}

theorem Passes.append (h : Passes s earlier t) (next : Passes t later r) :
    Passes s (earlier ++ later) r := by
  induction h with
  | nothing => exact next
  | leave leaves _ ih => exact .leave leaves (ih next)

theorem Passes.due (h : Passes s earlier t) : ∀ m ∈ earlier, m.Due := by
  induction h with
  | nothing => nofun
  | leave leaves _ ih => exact List.forall_mem_cons.mpr ⟨leaves.due, ih⟩

private theorem Passes.handed_eq (h : Passes s earlier t) :
    handed t.journal = handed s.journal ++ earlier.map (·.parcel.image) := by
  induction h with
  | nothing => exact (List.append_nil _).symm
  | leave leaves _ ih =>
    rw [ih, leaves.handed_eq, List.append_assoc]
    rfl

end Passes

private theorem passes_controls (queue : List ControlFrame) (s : LinkState δ ω) :
    Passes { s with control.waiting := queue } (controlMoments queue s)
      { (handControls queue s).2 with control.waiting := (handControls queue s).1 } := by
  induction queue generalizing s with
  | nil => exact .nothing _
  | cons f rest ih =>
    rw [controlMoments, handControls]
    split
    · exact .nothing _
    · next space =>
      apply Passes.leave
      · exact .control rfl (Nat.le_of_not_lt space)
      · exact ih { s.hand f.image with status.tx.controlFrames := s.status.tx.controlFrames + 1 }

private theorem passes_data (now : Nat) (sent frames : List Outgoing) (s : LinkState δ ω) :
    Passes { s with control.waiting := [], window.frames := sent ++ frames }
      (dataMoments now sent frames s)
      { (handPending now frames s).2 with
        control.waiting := []
        window.frames := sent ++ (handPending now frames s).1 } := by
  induction frames generalizing sent s with
  | nil => exact .nothing _
  | cons f rest ih =>
    rw [dataMoments, handPending]
    split
    · have later := ih (sent ++ [f]) s
      simp only [List.append_assoc, List.singleton_append] at later
      exact later
    · split
      · exact .nothing _
      · next space =>
        have later := ih (sent ++ [f.markSent now]) (s.handOutgoing f)
        simp only [List.append_assoc, List.singleton_append] at later
        apply Passes.leave
        · exact .data now rfl rfl (Nat.le_of_not_lt space)
        · exact later

/-- To flush a link is to hand over frames at its moments. -/
theorem passes_flush (s : LinkState δ ω) : Passes s s.moments s.flush := by
  have controls := passes_controls s.control.waiting s
  unfold moments flush
  cases left : handControls s.control.waiting s with
  | mk queue t =>
    rw [left] at controls
    cases queue with
    | cons f rest =>
      simp only [List.append_nil]
      exact controls
    | nil => exact controls.append (passes_data t.clock [] t.window.frames t)

/-! ## The states that are flushed -/

/-- What is handed over when these states are flushed. -/
def given (flushed : List (LinkState δ ω)) : List Bytes :=
  (flushed.flatMap moments).map (·.parcel.image)

theorem given_append (flushed flushed' : List (LinkState δ ω)) :
    given (flushed ++ flushed') = given flushed ++ given flushed' := by
  rw [given, List.flatMap_append, List.map_append]
  rfl

theorem handed_flush (s : LinkState δ ω) :
    handed s.flush.journal = handed s.journal ++ given [s] := by
  rw [(passes_flush s).handed_eq, given, List.flatMap_singleton]

/-- The state in which a frame has just been accepted, if it is: with the frame in the window, and
before the flush. -/
def accepting (s : LinkState δ ω) (metadata : Nat) (payload : Bytes) :
    Option (LinkState δ ω) :=
  match (s.send metadata payload).1 with
  | .error _ => none
  | .ok () =>
    (s.window.push s.nextId (DataFrame.image ⟨s.nextId, metadata, payload⟩)).map fun window =>
      { s with window, nextId := FrameId.next s.nextId }.note (.accepted metadata payload)

private theorem send_eq_accepting (s : LinkState δ ω) (metadata : Nat) (payload : Bytes) :
    (s.send metadata payload).2 = ((s.accepting metadata payload).map flush).getD s := by
  unfold accepting
  rcases send_cases s metadata payload with ⟨-, fault, same⟩ | ⟨-, -, window, pushed, same⟩
  · rw [same]
    rfl
  · rw [same, pushed]
    rfl

private theorem handed_accepting {s t : LinkState δ ω} {metadata : Nat} {payload : Bytes}
    (accepted : s.accepting metadata payload = some t) : handed t.journal = handed s.journal := by
  unfold accepting at accepted
  split at accepted
  · cases accepted
  · obtain ⟨window, -, rfl⟩ := Option.map_eq_some_iff.mp accepted
    rfl

omit [Driver δ] in
theorem Reaction.handed_eq {s s' : LinkState δ ω} {happening : Framing.Happening}
    {calls : List Call} (reaction : Reaction s happening s' calls) :
    handed s'.journal = handed s.journal := by
  cases reaction <;> rfl

omit [Driver δ] in
theorem handed_log (s : LinkState δ ω) (call : Call) :
    handed (s.log call.action).journal = handed s.journal := by
  cases call <;> rfl

/-- The states that are flushed while the link does what the layer above asks for. -/
def scriptFlushes : Script ω α → LinkState δ ω → List (LinkState δ ω)
  | .done _, _ => []
  | .send metadata payload next, s =>
    let (result, sent) := s.send metadata payload
    (s.accepting metadata payload).toList ++ scriptFlushes (next result) sent
  | .status next, s => scriptFlushes (next s.status) s
  | .clock next, s => scriptFlushes (next s.clock) s
  | .capacity next, s => scriptFlushes (next s.sendCapacity) s
  | .remark r next, s => scriptFlushes next (s.log (.remarked r))

variable (upper : Upper υ ω)

/-- The states that are flushed while the layer above is told of all this. -/
def callFlushes : υ × LinkState δ ω → List Call → List (LinkState δ ω)
  | _, [] => []
  | us, call :: rest =>
    scriptFlushes (upper.answer us.1 call) (us.2.log call.action) ++
      callFlushes (tell upper us call) rest

/-- The states that are flushed while notices are taken: the link reacts, and tells the layer
above. -/
def noticeFlushes : υ × LinkState δ ω → List Framing.Notice → List (LinkState δ ω)
  | _, [] => []
  | us, notice :: rest =>
    let counted := { us.2 with status := us.2.status.withCounters notice.counters }
    let (s, calls) := counted.react notice.happening
    callFlushes upper (us.1, s) calls ++ noticeFlushes (takeNotice upper us notice) rest

/-- The states that are flushed when it is seen whether the oldest frame is due. -/
def timeoutFlushes (u : υ) (s : LinkState δ ω) : List (LinkState δ ω) :=
  match s.window.oldestSent? with
  | none => []
  | some oldest =>
    if s.clock - oldest.sentAt < s.config.timeout then []
    else if s.config.retries ≤ oldest.attempts ∧ s.disconnected = false then
      let lost := { s with disconnected := true }
      let (_, told) := tell upper (u, lost) (.event .disconnected)
      callFlushes upper (u, lost) [.event .disconnected] ++
        [{ told with window := told.window.rewind }]
    else [{ s with window := s.window.rewind }]

section Handed

theorem handed_send (s : LinkState δ ω) (metadata : Nat) (payload : Bytes) :
    handed (s.send metadata payload).2.journal =
      handed s.journal ++ given (s.accepting metadata payload).toList := by
  rw [send_eq_accepting]
  cases accepted : s.accepting metadata payload with
  | none => exact (List.append_nil _).symm
  | some t =>
    rw [← handed_accepting accepted]
    exact handed_flush t

private theorem handed_run (script : Script ω α) (s : LinkState δ ω) :
    handed (s.run script).2.journal = handed s.journal ++ given (scriptFlushes script s) := by
  induction script generalizing s with
  | done => exact (List.append_nil _).symm
  | send metadata payload next ih =>
    rw [scriptFlushes, given_append, ← List.append_assoc, ← handed_send]
    exact ih _ _
  | status next ih => exact ih _ s
  | clock next ih => exact ih _ s
  | capacity next ih => exact ih _ s
  | remark r next ih => exact ih _

theorem handed_tellAll (calls : List Call) (us : υ × LinkState δ ω) :
    handed (tellAll upper us calls).2.journal =
      handed us.2.journal ++ given (callFlushes upper us calls) := by
  induction calls generalizing us with
  | nil => exact (List.append_nil _).symm
  | cons call rest ih =>
    have told : handed (tell upper us call).2.journal = handed us.2.journal ++
        given (scriptFlushes (upper.answer us.1 call) (us.2.log call.action)) := by
      rw [← handed_log us.2 call]
      cases call with
      | event => exact handed_run _ _
      | data => exact handed_run _ _
    rw [callFlushes, given_append, ← List.append_assoc, ← told]
    exact ih _

private theorem handed_takeNotices (notices : List Framing.Notice) (us : υ × LinkState δ ω) :
    handed (notices.foldl (takeNotice upper) us).2.journal =
      handed us.2.journal ++ given (noticeFlushes upper us notices) := by
  induction notices generalizing us with
  | nil => exact (List.append_nil _).symm
  | cons notice rest ih =>
    obtain ⟨s, calls, reaction, taken⟩ := reaction_takeNotice upper us.1 us.2 notice
    have reacted : handed s.journal = handed us.2.journal := reaction.handed_eq
    have told : handed (takeNotice upper us notice).2.journal =
        handed us.2.journal ++ given (callFlushes upper (us.1, s) calls) := by
      rw [show us = (us.1, us.2) from rfl, taken, ← reacted]
      exact handed_tellAll upper calls (us.1, s)
    simp only [noticeFlushes, reaction.react_eq]
    rw [given_append, ← List.append_assoc, ← told]
    exact ih _

private theorem handed_timeout (u : υ) (s : LinkState δ ω) :
    handed (s.checkTimeout upper u).2.journal =
      handed s.journal ++ given (timeoutFlushes upper u s) := by
  unfold checkTimeout timeoutFlushes
  cases s.window.oldestSent? with
  | none => exact (List.append_nil _).symm
  | some oldest =>
    simp only
    split
    · exact (List.append_nil _).symm
    · split
      · have told := handed_tellAll upper [.event .disconnected]
          (u, { s with disconnected := true })
        rw [given_append, ← List.append_assoc]
        exact (handed_flush _).trans (congrArg (· ++ _) told)
      · exact handed_flush { s with window := s.window.rewind }

end Handed

/-! ## What is left behind -/

private theorem exhausted_send {s : LinkState δ ω} {metadata : Nat} {payload : Bytes}
    (sent : (s.send metadata payload).1 = .ok ()) : (s.send metadata payload).2.Exhausted := by
  rcases send_cases s metadata payload with ⟨-, fault, same⟩ | ⟨-, -, window, -, same⟩
  · rw [same] at sent
    cases sent
  · rw [same]
    exact exhausted_flush _

/-- A timeout hands over what it calls for again; without one the driver is as the flush left it. -/
theorem exhausted_checkTimeout (upper : Upper υ ω) (u : υ) {s : LinkState δ ω}
    (exhausted : s.Exhausted) : (s.checkTimeout upper u).2.Exhausted := by
  rcases checkTimeout_cases upper u s with same | ⟨_, _, _, same⟩ | ⟨_, _, _, _, _, same⟩
  · rw [same]
    exact exhausted
  · rw [same]
    exact exhausted_flush _
  · rw [same]
    exact exhausted_flush _

end LinkState

namespace Link

open LinkState Simulation

/-- The states that are flushed in the course of an act, in this order. -/
def flushes (upper : Upper υ ω) (ul : υ × Link δ ω) : Act δ → List (LinkState δ ω)
  | .send metadata payload => (ul.2.state.accepting metadata payload).toList
  | .receive chunk =>
    let (framer, notices) := ul.2.framer.receive chunk
    let (_, s) := notices.foldl (takeNotice upper) (ul.1, ul.2.state)
    noticeFlushes upper (ul.1, ul.2.state) notices ++
      [{ s with status := s.status.withCounters framer.counters }]
  | .process => ul.2.state :: timeoutFlushes upper ul.1 ul.2.state.flush
  | .reset => [ul.2.state.restarted]
  | .tune _ => []

private theorem handed_act (upper : Upper υ ω) (ul : υ × Link δ ω) (act : Act δ) :
    handed (Link.act upper ul act).2.state.journal =
      handed ul.2.state.journal ++ given (flushes upper ul act) := by
  cases act with
  | send metadata payload => exact handed_send _ _ _
  | receive chunk =>
    have taken := handed_takeNotices upper (ul.2.framer.receive chunk).2 (ul.1, ul.2.state)
    rw [flushes, given_append, ← List.append_assoc, ← taken]
    exact handed_flush _
  | process =>
    have first := handed_flush ul.2.state
    rw [flushes, ← List.singleton_append, given_append, ← List.append_assoc, ← first]
    exact handed_timeout upper ul.1 ul.2.state.flush
  | reset => exact handed_flush ul.2.state.restarted
  | tune driver => exact (List.append_nil _).symm

/-- After any acts, whatever is done next with a link, the driver is handed just what the states
hand over that are flushed in the act, in this order. At every moment at which something is handed
over, the driver has space for it, and no control frame waits if it is a data frame. When a frame
was accepted, bytes were received, time passed or the link was begun anew, nothing more can be
handed over. -/
theorem handing_acts (upper : Upper υ ω) (ul : υ × Link δ ω) (acts : List (Act δ)) :
    let m := Link.acts upper ul acts
    (∀ act,
      let moments := (flushes upper m act).flatMap LinkState.moments
      handed (Link.act upper m act).2.state.journal =
          handed m.2.state.journal ++ moments.map (·.parcel.image) ∧
        ∀ moment ∈ moments, moment.parcel.image.length ≤ moment.state.space ∧
          (moment.parcel.isData = true → moment.state.control.waiting = [])) ∧
      (∀ s, Meets upper ul acts s → ∀ metadata payload,
        (s.send metadata payload).1 = .ok () → (s.send metadata payload).2.Exhausted) ∧
      (∀ chunk, (m.2.receive upper m.1 chunk).2.state.Exhausted) ∧
      (m.2.process upper m.1).2.state.Exhausted ∧ m.2.reset.state.Exhausted := by
  intro m
  refine ⟨fun act => ⟨handed_act upper m act, fun moment among => ?_⟩,
    fun s _ metadata payload => exhausted_send, fun chunk => exhausted_flush _,
    exhausted_checkTimeout upper m.1 (exhausted_flush m.2.state), exhausted_flush _⟩
  obtain ⟨s, -, inside⟩ := List.mem_flatMap.mp among
  have due := (passes_flush s).due moment inside
  exact ⟨due.space, due.turn⟩

/-- With 20 bytes of space, the acknowledgement is handed over first, and then there is no space for
the frame with which the layer above answers. -/
example :
    let l : Link Wire Remark := ⟨.ofCapacity maxSize, .ofConfig {} { budget := some 20 }⟩
    let s := (l.receive echoer () (DataFrame.image ⟨0, 1, [7]⟩)).2.state
    handed s.journal = [ControlFrame.image ⟨.ackAll, 0⟩] ∧ s.control.waiting = [] ∧
      s.window.firstPending?.map (·.image.length) = some 13 ∧ s.space = 12 := by
  decide +kernel

end Link

end FramedLink
