import FramedLink.Proofs.Lasting
import FramedLink.Proofs.WindowChanges

/-! # The states in which a link is met

A link is met between two acts, and from inside: the layer above is called in the middle of an act,
and each request of its script finds the link in another state. What lasts through a run holds in
all of these states.
-/

namespace FramedLink

variable {δ ω υ α : Type}

/-- The script with which the layer above answers a call. -/
def Upper.answer (upper : Upper υ ω) (u : υ) : Call → Script ω υ
  | .event event => upper.onEvent u event
  | .data metadata payload => upper.onData u metadata payload

variable [Driver δ]

namespace LinkState

/-- The states in which a script meets the link: where it starts, and behind each of its steps. -/
def stations : Script ω α → LinkState δ ω → List (LinkState δ ω)
  | .done _, s => [s]
  | .send metadata payload next, s =>
    s :: stations (next (s.send metadata payload).1) (s.send metadata payload).2
  | .status next, s => s :: stations (next s.status) s
  | .clock next, s => s :: stations (next s.clock) s
  | .capacity next, s => s :: stations (next s.sendCapacity) s
  | .remark r next, s => s :: stations next (s.log (.remarked r))

theorem utter_stations {P : LinkState δ ω → Prop}
    (step : ∀ {s s'}, Utterance s s' → P s → P s') (script : Script ω α) {s : LinkState δ ω}
    (holds : P s) : ∀ t ∈ stations script s, P t := by
  induction script generalizing s with
  | done =>
    intro t among
    rw [List.mem_singleton.mp among]
    exact holds
  | send metadata payload next ih =>
    have sent := (utters_send s metadata payload).keep step holds
    exact List.forall_mem_cons.mpr ⟨holds, ih _ sent⟩
  | status next ih => exact List.forall_mem_cons.mpr ⟨holds, ih _ holds⟩
  | clock next ih => exact List.forall_mem_cons.mpr ⟨holds, ih _ holds⟩
  | capacity next ih => exact List.forall_mem_cons.mpr ⟨holds, ih _ holds⟩
  | remark r next ih => exact List.forall_mem_cons.mpr ⟨holds, ih (step (.remark s r) holds)⟩

/-- What emissions keep holds at every station of a script. -/
theorem keep_stations {P : LinkState δ ω → Prop} (step : ∀ {s s'}, Emission s s' → P s → P s')
    (script : Script ω α) {s : LinkState δ ω} (holds : P s) : ∀ t ∈ stations script s, P t :=
  utter_stations (fun utterance => utterance.emits.keep step) script holds

end LinkState

namespace Link

open LinkState

/-- In the course of an act, the layer above in the state `u` is called by a link in the state `s`.
A notice of the framer may lead to several calls, one after the other. -/
inductive Calls (upper : Upper υ ω) (ul : υ × Link δ ω) :
    Act δ → υ → LinkState δ ω → Call → Prop where
  | notice {chunk : Bytes} {earlier later : List Framing.Notice} {notice : Framing.Notice}
      {us : υ × LinkState δ ω} {s : LinkState δ ω} {told rest : List Call} {call : Call}
      (notices : (ul.2.framer.receive chunk).2 = earlier ++ notice :: later)
      (before : earlier.foldl (takeNotice upper) (ul.1, ul.2.state) = us)
      (reaction : Reaction { us.2 with status := us.2.status.withCounters notice.counters }
        notice.happening s (told ++ call :: rest)) :
      Calls upper ul (.receive chunk) (tellAll upper (us.1, s) told).1
        (tellAll upper (us.1, s) told).2 call
  | timeout {oldest : Outgoing} (sent : ul.2.state.flush.window.oldestSent? = some oldest)
      (due : ul.2.state.config.timeout ≤ ul.2.state.flush.clock - oldest.sentAt)
      (tried : ul.2.state.config.retries ≤ oldest.attempts)
      (connected : ul.2.state.disconnected = false) :
      Calls upper ul .process ul.1 { ul.2.state.flush with disconnected := true }
        (.event .disconnected)

/-- In a run of these acts, the link is met in this state at the end of an act, or by the layer
above in the middle of the last act. -/
inductive Meets (upper : Upper υ ω) (ul : υ × Link δ ω) : List (Act δ) → LinkState δ ω → Prop where
  | between (acts : List (Act δ)) : Meets upper ul acts (Link.acts upper ul acts).2.state
  | within {acts : List (Act δ)} {act : Act δ} {u : υ} {s t : LinkState δ ω} {call : Call}
      (calls : Calls upper (Link.acts upper ul acts) act u s call)
      (among : t ∈ stations (upper.answer u call) (s.log call.action)) :
      Meets upper ul (acts ++ [act]) t

end Link

namespace LinkState

namespace Enduring

variable {upper : Upper υ ω} {Q : List Call → υ → LinkState δ ω → Prop}
  (enduring : Enduring upper Q)
include enduring

/-- What endures holds when the layer above is called, with this call and perhaps more of them
due. -/
theorem calls {ul : υ × Link δ ω} {act : Act δ} {u : υ} {s : LinkState δ ω} {call : Call}
    (calls : Link.Calls upper ul act u s call) (holds : Q [] ul.1 ul.2.state) :
    ∃ due, Q (call :: due) u s := by
  have attending := enduring.attending
  cases calls with
  | @notice _ earlier _ notice _ _ told rest _ _ before reaction =>
    have taken := attending.takeNotices earlier (ul.1, ul.2.state) holds
    rw [before] at taken
    exact ⟨rest, attending.tellAll told (call :: rest) _
      (enduring.reaction reaction (enduring.counted notice.counters taken))⟩
  | timeout _ _ _ connected => exact ⟨[], enduring.disconnected
      ((congrArg LinkState.disconnected (flush_frame ul.2.state)).trans connected)
      (enduring.flush holds)⟩

theorem meets_of_tuned {ul : υ × Link δ ω} {acts : List (Act δ)} {t : LinkState δ ω}
    (meets : Link.Meets upper ul acts t)
    (tuned : ∀ earlier driver later, acts = earlier ++ .tune driver :: later →
      let m := Link.acts upper ul earlier
      Q [] m.1 m.2.state → Q [] m.1 { m.2.state with driver })
    (holds : Q [] ul.1 ul.2.state) : ∃ due u, Q due u t := by
  cases meets with
  | between => exact ⟨_, _, enduring.acts_of_tuned acts ul tuned holds⟩
  | @within acts act u s _ call calls among =>
    have before := enduring.acts_of_tuned acts ul (fun earlier driver later same =>
      tuned earlier driver (later ++ [act]) (by rw [same, List.append_assoc]; rfl)) holds
    obtain ⟨due, called⟩ := enduring.calls calls before
    exact ⟨due, _, utter_stations enduring.utterance _ (enduring.told call due called) t among⟩

end Enduring

/-- What lasts through a run holds in every state in which the link is met. -/
theorem Lasting.meets {upper : Upper υ ω} {P : υ → LinkState δ ω → Prop}
    (lasting : Lasting upper P) {ul : υ × Link δ ω} {acts : List (Act δ)} {t : LinkState δ ω}
    (meets : Link.Meets upper ul acts t) (holds : P ul.1 ul.2.state) : ∃ u, P u t := by
  obtain ⟨-, u, met⟩ :=
    lasting.enduring.meets_of_tuned meets (fun _ driver _ _ => lasting.driver driver) holds
  exact ⟨u, met⟩

end LinkState

end FramedLink
