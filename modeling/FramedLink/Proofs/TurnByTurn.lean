import FramedLink.Proofs.Meeting
import FramedLink.Proofs.Requesting

/-! # Turn by turn

What the receiving side of a link goes through in a run is a list of turns. In every state in which
the link is met, some of these turns have been taken and the others are still to come. A property of
the turns taken so far and the state, which every small step keeps, holds whenever the link is met.
-/

namespace FramedLink

open FramedLink.Framing

variable {δ ω υ : Type} [Driver δ]

namespace Link

open LinkState

/-- In the course of an act, the layer above in the state `u` is called by a link in the state `s`,
and the link has taken these turns since the act began. -/
inductive CallsAfter (upper : Upper υ ω) (ul : υ × Link δ ω) :
    Act δ → List Receiver.Turn → υ → LinkState δ ω → Call → Prop where
  | notice {chunk : Bytes} {earlier later : List Notice} {notice : Notice}
      {us : υ × LinkState δ ω} {s : LinkState δ ω} {told rest : List Call} {call : Call}
      (notices : (ul.2.framer.receive chunk).2 = earlier ++ notice :: later)
      (before : earlier.foldl (takeNotice upper) (ul.1, ul.2.state) = us)
      (reaction : Reaction { us.2 with status := us.2.status.withCounters notice.counters }
        notice.happening s (told ++ call :: rest)) :
      CallsAfter upper ul (.receive chunk)
        (LinkState.turns upper (ul.1, ul.2.state) (earlier ++ [notice]))
        (tellAll upper (us.1, s) told).1 (tellAll upper (us.1, s) told).2 call
  | timeout {oldest : Outgoing} (sent : ul.2.state.flush.window.oldestSent? = some oldest)
      (due : ul.2.state.config.timeout ≤ ul.2.state.flush.clock - oldest.sentAt)
      (tried : ul.2.state.config.retries ≤ oldest.attempts)
      (connected : ul.2.state.disconnected = false) :
      CallsAfter upper ul .process [] ul.1 { ul.2.state.flush with disconnected := true }
        (.event .disconnected)

/-- In a run of these acts, the link is met in this state, and it has taken these turns. -/
inductive MeetsAfter (upper : Upper υ ω) (ul : υ × Link δ ω) :
    List (Act δ) → List Receiver.Turn → LinkState δ ω → Prop where
  | between (acts : List (Act δ)) :
    MeetsAfter upper ul acts (history upper ul acts) (Link.acts upper ul acts).2.state
  | within {acts : List (Act δ)} {act : Act δ} {turns : List Receiver.Turn} {u : υ}
      {s t : LinkState δ ω} {call : Call}
      (calls : CallsAfter upper (Link.acts upper ul acts) act turns u s call)
      (among : t ∈ stations (upper.answer u call) (s.log call.action)) :
      MeetsAfter upper ul (acts ++ [act]) (history upper ul acts ++ turns) t

variable {upper : Upper υ ω} {ul : υ × Link δ ω}

theorem calls_iff {act : Act δ} {u : υ} {s : LinkState δ ω} {call : Call} :
    Calls upper ul act u s call ↔ ∃ turns, CallsAfter upper ul act turns u s call := by
  constructor
  · intro calls
    cases calls with
    | notice notices before reaction => exact ⟨_, .notice notices before reaction⟩
    | timeout sent due tried connected => exact ⟨_, .timeout sent due tried connected⟩
  · rintro ⟨turns, calls⟩
    cases calls with
    | notice notices before reaction => exact .notice notices before reaction
    | timeout sent due tried connected => exact .timeout sent due tried connected

/-- Whenever a link is met, it is met after some turns. -/
theorem meets_iff {acts : List (Act δ)} {t : LinkState δ ω} :
    Meets upper ul acts t ↔ ∃ turns, MeetsAfter upper ul acts turns t := by
  constructor
  · intro meets
    cases meets with
    | between => exact ⟨_, .between acts⟩
    | within calls among =>
      obtain ⟨turns, calls⟩ := calls_iff.mp calls
      exact ⟨_, .within calls among⟩
  · rintro ⟨turns, meets⟩
    cases meets with
    | between => exact .between acts
    | within calls among => exact .within (calls_iff.mpr ⟨_, calls⟩) among

end Link

namespace LinkState

private theorem turns_append (upper : Upper υ ω) (us : υ × LinkState δ ω)
    (earlier later : List Notice) :
    turns upper us (earlier ++ later) =
      turns upper us earlier ++ turns upper (earlier.foldl (takeNotice upper) us) later := by
  induction earlier generalizing us with
  | nil => rfl
  | cons notice rest ih => exact congrArg (_ :: ·) (ih (takeNotice upper us notice))

/-- Whatever happens to a link, the property of its turns and its state stays. -/
structure Tracking (P : List Receiver.Turn → LinkState δ ω → Prop) : Prop where
  emission : ∀ {turns s s'}, Emission s s' → P turns s → P turns s'
  reaction : ∀ {turns s s' happening calls}, Reaction s happening s' calls → P turns s →
    P (turns ++ [.take s.receiver happening]) s'
  told : ∀ {turns s} (call : Call), P turns s → P turns (s.log call.action)
  counted : ∀ {turns s} (counters : Counters), P turns s →
    P turns { s with status := s.status.withCounters counters }
  disconnected : ∀ {turns s}, P turns s → P turns { s with disconnected := true }
  rewind : ∀ {turns s}, P turns s → P turns { s with window := s.window.rewind }
  restarted : ∀ {turns s}, P turns s → P (turns ++ [.restart]) s.restarted
  driver : ∀ {turns s} (driver : δ), P turns s → P turns { s with driver }

namespace Tracking

variable {P : List Receiver.Turn → LinkState δ ω → Prop} (tracking : Tracking P)
include tracking

theorem emits {turns : List Receiver.Turn} {s s' : LinkState δ ω} (emits : Emits s s')
    (holds : P turns s) : P turns s' :=
  emits.keep tracking.emission holds

theorem tellAll (upper : Upper υ ω) {turns : List Receiver.Turn} (calls : List Call)
    (us : υ × LinkState δ ω) (holds : P turns us.2) :
    P turns (LinkState.tellAll upper us calls).2 :=
  keep_tellAll tracking.emission tracking.told upper calls us holds

theorem takeNotice (upper : Upper υ ω) {turns : List Receiver.Turn} (notice : Notice)
    (us : υ × LinkState δ ω) (holds : P turns us.2) :
    P (turns ++ [.take us.2.receiver notice.happening]) (takeNotice upper us notice).2 := by
  obtain ⟨s', calls, reaction, same⟩ := reaction_takeNotice upper us.1 us.2 notice
  have reacted := tracking.reaction reaction (tracking.counted notice.counters holds)
  have taken : LinkState.takeNotice upper us notice = LinkState.tellAll upper (us.1, s') calls :=
    same
  rw [taken]
  exact tracking.tellAll upper calls (us.1, s') reacted

theorem takeNotices (upper : Upper υ ω) {turns : List Receiver.Turn} (notices : List Notice)
    (us : υ × LinkState δ ω) (holds : P turns us.2) :
    P (turns ++ LinkState.turns upper us notices)
      (notices.foldl (LinkState.takeNotice upper) us).2 := by
  induction notices generalizing us turns with
  | nil =>
    rw [LinkState.turns, List.append_nil]
    exact holds
  | cons notice rest ih =>
    have later := ih _ (tracking.takeNotice upper notice us holds)
    rw [List.append_assoc] at later
    exact later

theorem act (upper : Upper υ ω) {turns : List Receiver.Turn} (act : Act δ) (ul : υ × Link δ ω)
    (holds : P turns ul.2.state) :
    P (turns ++ Link.turns upper ul act) (Link.act upper ul act).2.state := by
  -- All but what is received and a new beginning takes no turn.
  have idle : P (turns ++ []) ul.2.state := (List.append_nil turns).symm ▸ holds
  cases act with
  | send metadata payload => exact tracking.emits (emits_send ul.2.state metadata payload) idle
  | receive chunk =>
    have taken := tracking.takeNotices upper (ul.2.framer.receive chunk).2 (ul.1, ul.2.state) holds
    exact tracking.emits (emits_flush _) (tracking.counted _ taken)
  | process =>
    exact keep_checkTimeout tracking.emission tracking.told tracking.disconnected tracking.rewind
      upper ul.1 (tracking.emits (emits_flush ul.2.state) idle)
  | reset => exact tracking.emits (emits_flush ul.2.state.restarted) (tracking.restarted holds)
  | tune driver => exact tracking.driver driver idle

theorem acts (upper : Upper υ ω) {turns : List Receiver.Turn} (acts : List (Act δ))
    (ul : υ × Link δ ω) (holds : P turns ul.2.state) :
    P (turns ++ Link.history upper ul acts) (Link.acts upper ul acts).2.state := by
  induction acts generalizing ul turns with
  | nil =>
    rw [Link.history, List.append_nil]
    exact holds
  | cons act rest ih =>
    have later := ih _ (tracking.act upper act ul holds)
    rw [List.append_assoc] at later
    exact later

theorem calls {upper : Upper υ ω} {turns more : List Receiver.Turn} {ul : υ × Link δ ω}
    {act : Act δ} {u : υ} {s : LinkState δ ω} {call : Call}
    (calls : Link.CallsAfter upper ul act more u s call) (holds : P turns ul.2.state) :
    P (turns ++ more) s := by
  cases calls with
  | @notice _ earlier _ notice us s told _ _ _ before reaction =>
    have taken := tracking.takeNotices upper earlier (ul.1, ul.2.state) holds
    rw [before] at taken
    have reacted := tracking.reaction reaction (tracking.counted notice.counters taken)
    rw [turns_append, before, ← List.append_assoc]
    exact tracking.tellAll upper told (us.1, s) reacted
  | timeout =>
    rw [List.append_nil]
    exact tracking.disconnected (tracking.emits (emits_flush ul.2.state) holds)

/-- What is kept turn by turn holds of the turns taken whenever the link is met. -/
theorem meets {upper : Upper υ ω} {turns more : List Receiver.Turn} {ul : υ × Link δ ω}
    {acts : List (Act δ)} {t : LinkState δ ω} (meets : Link.MeetsAfter upper ul acts more t)
    (holds : P turns ul.2.state) : P (turns ++ more) t := by
  cases meets with
  | between => exact tracking.acts upper acts ul holds
  | @within acts _ _ _ _ _ call calls among =>
    have called := tracking.calls calls (tracking.acts upper acts ul holds)
    rw [List.append_assoc] at called
    exact keep_stations tracking.emission _ (tracking.told call called) t among

end Tracking

end LinkState

end FramedLink
