import FramedLink.Proofs.Dating
import FramedLink.Simulation.Application
import FramedLink.Simulation.Wire

/-! # How often the peer is asked for a frame

A link asks its peer for the frame that it expects when another one comes too early, and when the
stream of frames is lost. For early frames it does so once, and not at all after a loss. But it asks
at every loss, even if it has asked before.
-/

namespace FramedLink

open FramedLink.Frame FramedLink.Framing

variable {δ ω υ : Type}

/-! ## The receiving side -/

namespace Receiver

/-- The receiver after the link has taken something, and the control frame that comes into the
queue. -/
def take (r : Receiver) : Happening → Receiver × Option ControlFrame
  | .frame (.data f) =>
    match r.classify f.id with
    | (.accept, r) => (r.accept, some ⟨.ackAll, r.expected⟩)
    | (.duplicate, r) => (r, some ⟨.ackAll, r.lastDelivered⟩)
    | (.ahead true, r) => (r, some ⟨.nackId, r.expected⟩)
    | (_, r) => (r, none)
  | .frame (.control f) =>
    if f.control = .reset ∧ f.id = LinkState.resetRequest then
      (r.reset, some ⟨.reset, LinkState.resetResponse⟩)
    else (r, none)
  | .lost => (r.claimNack.2, some ⟨.nackFraming, r.expected⟩)

/-- The receiver after the peer was asked for the frame that is expected. -/
def ask (r : Receiver) : Receiver := { r with asked := some r.expected }

section Take

variable {r : Receiver} {f : DataFrame}

private theorem take_accept (next : FrameId.distance f.id r.expected = 0) :
    r.take (.frame (.data f)) = (r.accept, some ⟨.ackAll, r.expected⟩) := by
  simp only [take, classify, next, if_true]

theorem take_again (behind : FrameId.distance f.id r.expected < 0) :
    r.take (.frame (.data f)) = (r, some ⟨.ackAll, r.lastDelivered⟩) := by
  simp only [take, classify, if_neg (Int.ne_of_lt behind), if_pos behind]

theorem take_ask (ahead : 0 < FrameId.distance f.id r.expected)
    (near : FrameId.distance f.id r.expected ≤ r.window) (unasked : r.asked ≠ some r.expected) :
    r.take (.frame (.data f)) = (r.ask, some ⟨.nackId, r.expected⟩) := by
  simp only [take, classify, claimNack, if_neg (Int.ne_of_gt ahead), if_neg (Int.lt_asymm ahead),
    if_pos near, if_neg unasked, ask]

theorem take_pass (ahead : 0 < FrameId.distance f.id r.expected)
    (reason : r.window < FrameId.distance f.id r.expected ∨ r.asked = some r.expected) :
    r.take (.frame (.data f)) = (r, none) := by
  by_cases near : FrameId.distance f.id r.expected ≤ r.window
  · have asked := reason.resolve_left (Int.not_lt_of_ge near)
    simp only [take, classify, claimNack, if_neg (Int.ne_of_gt ahead), if_neg (Int.lt_asymm ahead),
      if_pos near, if_pos asked]
  · simp only [take, classify, if_neg (Int.ne_of_gt ahead), if_neg (Int.lt_asymm ahead),
      if_neg near]

theorem take_lost (r : Receiver) : r.take .lost = (r.ask, some ⟨.nackFraming, r.expected⟩) := by
  have claimed : r.claimNack.2 = r.ask := by
    unfold claimNack ask
    split
    · next asked => rw [← asked]
    · rfl
  rw [take, claimed]

end Take

end Receiver

/-- The queue after a reply has come in. The reply to a reset takes the place of all that waits. -/
def ControlQueue.enter (q : ControlQueue) : Option ControlFrame → ControlQueue
  | none => q
  | some f => if f.control = .reset then q.clear.push f else q.push f

/-- With each reaction, the receiver takes what happens, and the reply comes into the queue. -/
theorem LinkState.Reaction.replies {s s' : LinkState δ ω} {happening : Happening}
    {calls : List Call} (reaction : Reaction s happening s' calls) :
    s'.receiver = (s.receiver.take happening).1 ∧
      s'.control = s.control.enter (s.receiver.take happening).2 := by
  cases reaction with
  | accept next =>
    rw [Receiver.take_accept next]
    exact ⟨rfl, rfl⟩
  | again behind =>
    rw [Receiver.take_again behind]
    exact ⟨rfl, rfl⟩
  | ask ahead near unasked =>
    rw [Receiver.take_ask ahead near unasked]
    exact ⟨rfl, rfl⟩
  | pass ahead reason =>
    rw [Receiver.take_pass ahead reason]
    exact ⟨rfl, rfl⟩
  | keep answer | release answer | resume answer =>
    rw [Receiver.take, if_neg fun both => answer both.1]
    exact ⟨rfl, rfl⟩
  | request reset asks =>
    rw [Receiver.take, if_pos ⟨reset, asks⟩]
    exact ⟨rfl, rfl⟩
  | response reset answers =>
    rw [Receiver.take, if_neg fun both => answers both.2]
    exact ⟨rfl, rfl⟩
  | lost =>
    have same : s.receiver.claimNack.2.expected = s.receiver.expected :=
      Receiver.expected_claimNack _
    exact ⟨rfl, congrArg (fun id => s.control.push ⟨.nackFraming, id⟩) same⟩

/-! ## Turns -/

/-- The peer is asked for a frame. -/
def ControlFrame.asks (f : ControlFrame) : Bool :=
  f.control = .nackId ∨ f.control = .nackFraming

/-- What the receiving side of a link goes through. -/
inductive Receiver.Turn where
  /-- A receiver takes something of which the framer gives notice. -/
  | take (receiver : Receiver) (happening : Happening)
  /-- The link is begun anew. -/
  | restart
  deriving DecidableEq

namespace Receiver.Turn

/-- From here on another frame is expected, or the first one again. -/
def moves : Turn → Bool
  | take r (.frame (.data f)) => FrameId.distance f.id r.expected = 0
  | take _ (.frame (.control f)) => f.control = .reset ∧ f.id = LinkState.resetRequest
  | take _ .lost => false
  | restart => true

/-- The control frame by which the peer is asked for the frame that is expected. -/
def request? : Turn → Option ControlFrame
  | take r happening => (r.take happening).2.filter (·.asks)
  | restart => none

def isLoss : Turn → Bool
  | take _ .lost => true
  | _ => false

/-- The frame that is expected, if a receiver takes something. -/
def expected? : Turn → Option Nat
  | take r _ => some r.expected
  | restart => none

/-- What a turn does after which the same frame is expected: it asks for that frame because of a
loss, or because of an early frame, or it does not ask. -/
theorem cases_of_still {r : Receiver} {happening : Happening}
    (still : (take r happening).moves = false) :
    happening = .lost ∨
      (take r happening).isLoss = false ∧
        ((∃ reply, r.take happening = (r, reply) ∧ reply.filter (·.asks) = none) ∨
          r.asked ≠ some r.expected ∧
            r.take happening = (r.ask, some ⟨.nackId, r.expected⟩)) := by
  match happening with
  | .lost => exact .inl rfl
  | .frame (.control f) =>
    have other : ¬ (f.control = .reset ∧ f.id = LinkState.resetRequest) := of_decide_eq_false still
    exact .inr ⟨rfl, .inl ⟨none, if_neg other, rfl⟩⟩
  | .frame (.data f) =>
    have apart : FrameId.distance f.id r.expected ≠ 0 := of_decide_eq_false still
    rcases Int.lt_or_gt_of_ne apart with behind | ahead
    · exact .inr ⟨rfl, .inl ⟨_, Receiver.take_again behind, rfl⟩⟩
    by_cases near : FrameId.distance f.id r.expected ≤ r.window
    · by_cases asked : r.asked = some r.expected
      · exact .inr ⟨rfl, .inl ⟨none, Receiver.take_pass ahead (.inr asked), rfl⟩⟩
      · exact .inr ⟨rfl, .inr ⟨asked, Receiver.take_ask ahead near asked⟩⟩
    · have far := Int.lt_of_not_ge near
      exact .inr ⟨rfl, .inl ⟨none, Receiver.take_pass ahead (.inl far), rfl⟩⟩

end Receiver.Turn

namespace Receiver

/-- The turns of a receiver, one after the other. -/
inductive Goes : Receiver → List Turn → Receiver → Prop where
  | nothing (r : Receiver) : Goes r [] r
  | take {r r' : Receiver} {happening : Happening} {turns : List Turn}
      (later : Goes (r.take happening).1 turns r') : Goes r (.take r happening :: turns) r'
  | restart {r r' : Receiver} {turns : List Turn} (later : Goes r.reset turns r') :
      Goes r (.restart :: turns) r'

namespace Goes

variable {r r' r'' : Receiver} {turns front back : List Turn}

private theorem of_eq (same : r' = r) : Goes r [] r' := same ▸ .nothing r

theorem append (first : Goes r front r') (second : Goes r' back r'') :
    Goes r (front ++ back) r'' := by
  induction first with
  | nothing => exact second
  | take _ ih => exact .take (ih second)
  | restart _ ih => exact .restart (ih second)

theorem split (goes : Goes r (front ++ back) r'') : ∃ r', Goes r front r' ∧ Goes r' back r'' := by
  induction front generalizing r with
  | nil => exact ⟨r, .nothing r, goes⟩
  | cons turn rest ih =>
    cases goes with
    | take later =>
      obtain ⟨r', first, second⟩ := ih later
      exact ⟨r', .take first, second⟩
    | restart later =>
      obtain ⟨r', first, second⟩ := ih later
      exact ⟨r', .restart first, second⟩

/-- As long as the same frame is expected, it is asked for once at most because of early frames, and
then at every loss. -/
theorem requests (goes : Goes r turns r') (still : ∀ turn ∈ turns, turn.moves = false) :
    (∀ turn ∈ turns, turn.expected? = some r.expected) ∧
    ∃ early, (early = [] ∨ r.asked ≠ some r.expected ∧ early = [⟨.nackId, r.expected⟩]) ∧
      turns.filterMap Turn.request? =
        early ++ List.replicate (turns.countP Turn.isLoss) ⟨.nackFraming, r.expected⟩ := by
  induction goes with
  | nothing => exact ⟨nofun, [], .inl rfl, rfl⟩
  | restart =>
    have moves := still .restart List.mem_cons_self
    cases moves
  | @take r _ happening rest later ih =>
    obtain ⟨first, others⟩ := List.forall_mem_cons.mp still
    obtain ⟨expects, early, few, same⟩ := ih others
    rw [List.filterMap_cons, List.countP_cons, Turn.request?]
    rcases Turn.cases_of_still first with
      rfl | ⟨kept, ⟨reply, next, none⟩ | ⟨unasked, next⟩⟩
    · rw [Receiver.take_lost] at expects few same ⊢
      obtain rfl : early = [] := few.resolve_right fun both => both.1 rfl
      refine ⟨List.forall_mem_cons.mpr ⟨rfl, expects⟩, [], .inl rfl, ?_⟩
      rw [same]
      rfl
    · rw [next] at expects few same ⊢
      refine ⟨List.forall_mem_cons.mpr ⟨rfl, expects⟩, early, few, ?_⟩
      simp only [none, kept]
      exact same
    · rw [next] at expects few same ⊢
      obtain rfl : early = [] := few.resolve_right fun both => both.1 rfl
      refine ⟨List.forall_mem_cons.mpr ⟨rfl, expects⟩, [_], .inr ⟨unasked, rfl⟩, ?_⟩
      rw [same, kept]
      rfl

/-- If the frame that is expected was not asked for before any of the losses, it is asked for at
most once. -/
theorem requests_once (goes : Goes r turns r') (still : ∀ turn ∈ turns, turn.moves = false)
    (unasked : ∀ s, .take s .lost ∈ turns → s.asked ≠ some s.expected) :
    (turns.filterMap Turn.request?).length ≤ 1 ∧
      (r.asked = some r.expected → turns.filterMap Turn.request? = []) := by
  induction goes with
  | nothing => exact ⟨Nat.zero_le _, fun _ => rfl⟩
  | restart =>
    have moves := still .restart List.mem_cons_self
    cases moves
  | @take r _ happening rest later ih =>
    obtain ⟨first, others⟩ := List.forall_mem_cons.mp still
    obtain ⟨once, none⟩ := ih others fun s among => unasked s (List.mem_cons_of_mem _ among)
    rw [List.filterMap_cons, Turn.request?]
    rcases Turn.cases_of_still first with rfl | ⟨-, ⟨reply, next, quiet⟩ | ⟨new, next⟩⟩
    · have new := unasked r List.mem_cons_self
      rw [Receiver.take_lost] at none ⊢
      rw [none rfl]
      exact ⟨Nat.le_refl _, fun asked => absurd asked new⟩
    · rw [next] at none ⊢
      simp only [quiet]
      exact ⟨once, none⟩
    · rw [next] at none ⊢
      rw [none rfl]
      exact ⟨Nat.le_refl _, fun asked => absurd asked new⟩

end Goes

end Receiver

/-! ## Runs -/

variable [Driver δ]

namespace LinkState

/-- The turns of a link that takes notices. -/
def turns (upper : Upper υ ω) : υ × LinkState δ ω → List Notice → List Receiver.Turn
  | _, [] => []
  | us, notice :: rest =>
    .take us.2.receiver notice.happening :: turns upper (takeNotice upper us notice) rest

theorem Emission.receiver_eq {s s' : LinkState δ ω} (emission : Emission s s') :
    s'.receiver = s.receiver := by
  cases emission <;> rfl

private theorem Emits.receiver_eq {s s' : LinkState δ ω} (emits : Emits s s') :
    s'.receiver = s.receiver :=
  emits.keep (P := fun t => t.receiver = s.receiver)
    (fun emission same => emission.receiver_eq.trans same) rfl

private theorem receiver_tellAll (upper : Upper υ ω) (us : υ × LinkState δ ω) (calls : List Call) :
    (tellAll upper us calls).2.receiver = us.2.receiver :=
  keep_tellAll (P := fun t => t.receiver = us.2.receiver)
    (fun emission same => emission.receiver_eq.trans same) (fun _ same => same) upper calls us rfl

private theorem receiver_checkTimeout (upper : Upper υ ω) (u : υ) (s : LinkState δ ω) :
    (s.checkTimeout upper u).2.receiver = s.receiver :=
  keep_checkTimeout (P := fun t => t.receiver = s.receiver)
    (fun emission same => emission.receiver_eq.trans same) (fun _ same => same)
    (fun same => same) (fun same => same) upper u rfl

/-- When a link takes a notice, a reply comes into its queue before it tells the layer above. -/
theorem replies_takeNotice (upper : Upper υ ω) (us : υ × LinkState δ ω) (notice : Notice) :
    ∃ s calls, takeNotice upper us notice = tellAll upper (us.1, s) calls ∧
      s.receiver = (us.2.receiver.take notice.happening).1 ∧
      s.control = us.2.control.enter (us.2.receiver.take notice.happening).2 := by
  obtain ⟨s, calls, reaction, same⟩ := reaction_takeNotice upper us.1 us.2 notice
  exact ⟨s, calls, same, reaction.replies⟩

private theorem goes_turns (upper : Upper υ ω) (us : υ × LinkState δ ω) (notices : List Notice) :
    us.2.receiver.Goes (turns upper us notices)
      (notices.foldl (takeNotice upper) us).2.receiver := by
  induction notices generalizing us with
  | nil => exact .nothing _
  | cons notice rest ih =>
    obtain ⟨s, calls, same, receiver, -⟩ := replies_takeNotice upper us notice
    have taken : (takeNotice upper us notice).2.receiver =
        (us.2.receiver.take notice.happening).1 := by
      rw [same, receiver_tellAll, receiver]
    exact .take (taken ▸ ih (takeNotice upper us notice))

end LinkState

namespace Link

open LinkState Simulation

/-- The turns of an act. -/
def turns (upper : Upper υ ω) (ul : υ × Link δ ω) : Act δ → List Receiver.Turn
  | .receive chunk =>
    LinkState.turns upper (ul.1, ul.2.state) (ul.2.framer.receive chunk).2
  | .reset => [.restart]
  | _ => []

/-- The turns of several acts. -/
def history (upper : Upper υ ω) : υ × Link δ ω → List (Act δ) → List Receiver.Turn
  | _, [] => []
  | ul, act :: rest => turns upper ul act ++ history upper (Link.act upper ul act) rest

private theorem goes_act (upper : Upper υ ω) (ul : υ × Link δ ω) (act : Act δ) :
    ul.2.state.receiver.Goes (turns upper ul act) (Link.act upper ul act).2.state.receiver := by
  cases act with
  | send metadata payload =>
    exact .of_eq (Emits.receiver_eq (emits_send ul.2.state metadata payload))
  | receive chunk =>
    let read := ul.2.framer.receive chunk
    let taken := (read.2.foldl (takeNotice upper) (ul.1, ul.2.state)).2
    have goes := goes_turns upper (ul.1, ul.2.state) read.2
    have flushed := Emits.receiver_eq
      (emits_flush { taken with status := taken.status.withCounters read.1.counters })
    rw [← List.append_nil (turns upper ul (.receive chunk))]
    exact goes.append (.of_eq flushed)
  | process =>
    have flushed : ul.2.state.flush.receiver = ul.2.state.receiver :=
      Emits.receiver_eq (emits_flush ul.2.state)
    exact .of_eq ((receiver_checkTimeout upper ul.1 ul.2.state.flush).trans flushed)
  | reset => exact .restart (.of_eq (Emits.receiver_eq (emits_flush ul.2.state.restarted)))
  | tune => exact .nothing _

theorem goes_history (upper : Upper υ ω) (ul : υ × Link δ ω) (acts : List (Act δ)) :
    ul.2.state.receiver.Goes (history upper ul acts)
      (Link.acts upper ul acts).2.state.receiver := by
  induction acts generalizing ul with
  | nil => exact .nothing _
  | cons act rest ih => exact (goes_act upper ul act).append (ih (Link.act upper ul act))

/-- Between two turns with which another frame is expected, the peer is asked for the same frame
with every request: at most once because of early frames, and then once for every loss. It is asked
at most once if it was not asked before any of the losses. Each request comes into the queue of the
link as it takes the notice. -/
theorem requests_history (upper : Upper υ ω) (ul : υ × Link δ ω) (acts : List (Act δ)) :
    (∀ (us : υ × LinkState δ ω) notice, ∃ s calls,
      takeNotice upper us notice = tellAll upper (us.1, s) calls ∧
      s.control = us.2.control.enter (us.2.receiver.take notice.happening).2) ∧
    ∀ before part after, history upper ul acts = before ++ part ++ after →
      (∀ turn ∈ part, turn.moves = false) →
        (∃ expected early, (∀ turn ∈ part, turn.expected? = some expected) ∧
          (early = [] ∨ early = [⟨.nackId, expected⟩]) ∧
          part.filterMap Receiver.Turn.request? =
            early ++ List.replicate (part.countP Receiver.Turn.isLoss) ⟨.nackFraming, expected⟩) ∧
        ((∀ r, .take r .lost ∈ part → r.asked ≠ some r.expected) →
          (part.filterMap Receiver.Turn.request?).length ≤ 1) := by
  refine ⟨fun us notice => ?_, fun before part after whole still => ?_⟩
  · obtain ⟨s, calls, same, -, control⟩ := replies_takeNotice upper us notice
    exact ⟨s, calls, same, control⟩
  · have goes := goes_history upper ul acts
    rw [whole] at goes
    obtain ⟨_, front, -⟩ := goes.split
    obtain ⟨r, -, here⟩ := front.split
    obtain ⟨expects, early, few, same⟩ := here.requests still
    exact ⟨⟨r.expected, early, expects, few.imp_right And.right, same⟩,
      fun unasked => (here.requests_once still unasked).1⟩

/-- Between two losses, a second early frame is not asked for. Nor is one after a loss. -/
theorem requests_losses :
    let l : Link Wire Remark := ⟨.ofCapacity maxSize, .ofConfig {} {}⟩
    let early := DataFrame.image ⟨3, 7, [5]⟩
    let often : List (Act Wire) :=
      [.receive early, .receive [0xaa], .receive early, .receive [0xaa]]
    let once : List (Act Wire) := [.receive [0xaa], .receive early]
    let turns := history silent ((), l) often
    let turns' := history silent ((), l) once
    (∀ turn ∈ turns, turn.moves = false) ∧ turns.countP Receiver.Turn.isLoss = 2 ∧
      (∃ expected asked, (∀ turn ∈ turns, turn.expected? = some expected) ∧
        (asked = [] ∨ asked = [⟨.nackId, expected⟩]) ∧
        turns.filterMap Receiver.Turn.request? =
          asked ++ List.replicate 2 ⟨.nackFraming, expected⟩) ∧
      (∀ turn ∈ turns', turn.moves = false) ∧
      (turns'.filterMap Receiver.Turn.request?).length ≤ 1 := by
  intro l early often once turns turns'
  have still : ∀ turn ∈ turns, turn.moves = false := by decide +kernel
  have still' : ∀ turn ∈ turns', turn.moves = false := by decide +kernel
  have losses : turns.countP Receiver.Turn.isLoss = 2 := by decide +kernel
  have unasked : ∀ r, .take r .lost ∈ turns' → r.asked ≠ some r.expected := by
    have first : turns' = [.take ⟨64, 0, none⟩ .lost,
        .take ⟨64, 0, some 0⟩ (.frame (.data ⟨3, 7, [5]⟩))] := by
      decide +kernel
    rw [first]
    simp
  have whole (list : List Receiver.Turn) : list = [] ++ list ++ [] := (List.append_nil list).symm
  obtain ⟨-, requests⟩ := requests_history silent ((), l) often
  obtain ⟨-, requests'⟩ := requests_history silent ((), l) once
  obtain ⟨asked, -⟩ := requests [] turns [] (whole turns) still
  obtain ⟨-, few⟩ := requests' [] turns' [] (whole turns') still'
  rw [losses] at asked
  exact ⟨still, losses, asked, still', few unasked⟩

/-- After an early frame and garbage, the peer is asked for the same frame twice. -/
theorem requests_twice :
    let l : Link Wire Remark := ⟨.ofCapacity maxSize, .ofConfig {} {}⟩
    let acts : List (Act Wire) := [.receive (DataFrame.image ⟨3, 7, [5]⟩), .receive [0xaa]]
    let turns := history silent ((), l) acts
    ofConfig {} {} = .ok l ∧ (∀ turn ∈ turns, turn.moves = false) ∧
      turns.filterMap Receiver.Turn.request? = [⟨.nackId, 0⟩, ⟨.nackFraming, 0⟩] ∧
      Journal.handed (Link.acts silent ((), l) acts).2.state.journal =
        [ControlFrame.image ⟨.nackId, 0⟩, ControlFrame.image ⟨.nackFraming, 0⟩] := by
  intro l acts turns
  exact ⟨ofConfig_eq_ok_iff.mpr ⟨Config.valid_default, rfl⟩, by decide +kernel, by decide +kernel,
    by decide +kernel⟩

end Link

end FramedLink
