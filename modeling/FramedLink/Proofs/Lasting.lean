import FramedLink.Proofs.Reaction

/-! # What lasts through a run

A run of a link is a list of acts: the layer above sends, bytes arrive in chunks of any size, time
passes, the driver changes, the link is begun anew. A property of a link and the layer above it that
every emission, every reaction, every call and the few other changes keep holds at the end of every
run.
-/

namespace FramedLink

variable {δ ω υ : Type}

/-- What may be done with a link. -/
inductive Act (δ : Type) where
  | send (metadata : Nat) (payload : Bytes)
  | receive (chunk : Bytes)
  | process
  | reset
  /-- The driver gets another state, with another clock and other space. -/
  | tune (driver : δ)
  deriving DecidableEq, Repr

namespace Link

theorem ofConfig_eq_ok_iff {config : Config} {driver : δ} {l : Link δ ω} [Driver δ] :
    ofConfig config driver = .ok l ↔
      config.Valid ∧ l = ⟨.ofCapacity config.receiveStorage, .ofConfig config driver⟩ := by
  unfold ofConfig
  rw [← Config.validate_eq_ok_iff]
  cases config.validate with
  | ok => simp [bind, Except.bind, pure, Except.pure, eq_comm]
  | error => simp [bind, Except.bind]

variable [Driver δ]

def act (upper : Upper υ ω) (ul : υ × Link δ ω) : Act δ → υ × Link δ ω
  | .send metadata payload => (ul.1, (ul.2.send metadata payload).2)
  | .receive chunk => ul.2.receive upper ul.1 chunk
  | .process => ul.2.process upper ul.1
  | .reset => (ul.1, ul.2.reset)
  | .tune driver => (ul.1, { ul.2 with state.driver := driver })

/-- The layer above and the link after several acts. -/
def acts (upper : Upper υ ω) (ul : υ × Link δ ω) (acts : List (Act δ)) : υ × Link δ ω :=
  acts.foldl (act upper) ul

end Link

namespace LinkState

/-- The state of a link that was begun anew, before it is flushed. -/
def restarted (s : LinkState δ ω) : LinkState δ ω :=
  ({ s.clear with status := {}, disconnected := false }.note .restarted).queue .reset resetRequest

variable [Driver δ]

/-- Whatever a link takes, and whatever the layer above does when it is told of it, the property
stays. It may say what is still due to be told to the layer above: nothing between two notices, and
the calls of a reaction after it. -/
structure Attending (upper : Upper υ ω) (Q : List Call → υ → LinkState δ ω → Prop) : Prop where
  flush : ∀ {u s}, Q [] u s → Q [] u s.flush
  reaction : ∀ {u s s' happening calls}, Reaction s happening s' calls → Q [] u s → Q calls u s'
  tell : ∀ {us} (call : Call) (due : List Call), Q (call :: due) us.1 us.2 →
    Q due (tell upper us call).1 (tell upper us call).2
  counted : ∀ {u s} (counters : Framing.Counters), Q [] u s →
    Q [] u { s with status := s.status.withCounters counters }

namespace Attending

variable {upper : Upper υ ω} {Q : List Call → υ → LinkState δ ω → Prop}
  (attending : Attending upper Q)
include attending

theorem tellAll (calls due : List Call) (us : υ × LinkState δ ω)
    (holds : Q (calls ++ due) us.1 us.2) :
    Q due (LinkState.tellAll upper us calls).1 (LinkState.tellAll upper us calls).2 := by
  induction calls generalizing us with
  | nil => exact holds
  | cons call rest ih => exact ih _ (attending.tell call (rest ++ due) holds)

theorem takeNotice (notice : Framing.Notice) (us : υ × LinkState δ ω) (holds : Q [] us.1 us.2) :
    Q [] (LinkState.takeNotice upper us notice).1 (LinkState.takeNotice upper us notice).2 := by
  obtain ⟨s', calls, reaction, same⟩ := reaction_takeNotice upper us.1 us.2 notice
  have reacted : Q calls us.1 s' :=
    attending.reaction reaction (attending.counted notice.counters holds)
  rw [show us = (us.1, us.2) from rfl, same]
  apply attending.tellAll
  rw [List.append_nil]
  exact reacted

theorem takeNotices (notices : List Framing.Notice) (us : υ × LinkState δ ω)
    (holds : Q [] us.1 us.2) :
    Q [] (notices.foldl (LinkState.takeNotice upper) us).1
      (notices.foldl (LinkState.takeNotice upper) us).2 := by
  induction notices generalizing us with
  | nil => exact holds
  | cons notice rest ih => exact ih _ (attending.takeNotice notice us holds)

theorem receive (chunk : Bytes) (ul : υ × Link δ ω) (holds : Q [] ul.1 ul.2.state) :
    Q [] (ul.2.receive upper ul.1 chunk).1 (ul.2.receive upper ul.1 chunk).2.state :=
  attending.flush (attending.counted _
    (attending.takeNotices (ul.2.framer.receive chunk).2 (ul.1, ul.2.state) holds))

theorem checkTimeout
    (disconnected : ∀ {u s}, s.disconnected = false → Q [] u s →
      Q [.event .disconnected] u { s with disconnected := true })
    (rewind : ∀ {u s}, Q [] u s → Q [] u { s with window := s.window.rewind })
    {u : υ} {s : LinkState δ ω} (holds : Q [] u s) :
    Q [] (s.checkTimeout upper u).1 (s.checkTimeout upper u).2 := by
  rcases checkTimeout_cases upper u s with
    same | ⟨_, _, _, same⟩ | ⟨_, _, _, _, connected, same⟩
  · rw [same]
    exact holds
  · rw [same]
    exact attending.flush (rewind holds)
  · rw [same]
    have due : Q [.event .disconnected] u { s with disconnected := true } :=
      disconnected connected holds
    exact attending.flush (rewind (attending.tell (.event .disconnected) [] due))

end Attending

/-- Whatever a link utters, however it reacts and whatever it tells the layer above, the property
stays. -/
structure Heeding (upper : Upper υ ω) (Q : List Call → υ → LinkState δ ω → Prop) : Prop where
  utterance : ∀ {due u s s'}, Utterance s s' → Q due u s → Q due u s'
  reaction : ∀ {u s s' happening calls}, Reaction s happening s' calls → Q [] u s → Q calls u s'
  told : ∀ {u s} (call : Call) (due : List Call), Q (call :: due) u s →
    Q due (tell upper (u, s) call).1 (s.log call.action)
  counted : ∀ {u s} (counters : Framing.Counters), Q [] u s →
    Q [] u { s with status := s.status.withCounters counters }

namespace Heeding

variable {upper : Upper υ ω} {Q : List Call → υ → LinkState δ ω → Prop} (heeding : Heeding upper Q)
include heeding

theorem utters {due : List Call} {u : υ} {s s' : LinkState δ ω} (utters : Utters s s')
    (holds : Q due u s) : Q due u s' :=
  utters.keep heeding.utterance holds

theorem flush {due : List Call} {u : υ} {s : LinkState δ ω} (holds : Q due u s) :
    Q due u s.flush :=
  heeding.utterance (.flush s) holds

theorem attending : Attending upper Q where
  flush := heeding.flush
  reaction := heeding.reaction
  tell {us} call due holds := heeding.utters (utters_tell upper us call)
    (heeding.told call due holds)
  counted := heeding.counted

end Heeding

/-- Whatever happens to a link and the layer above it, the property stays. -/
structure Enduring (upper : Upper υ ω) (Q : List Call → υ → LinkState δ ω → Prop) : Prop
    extends Heeding upper Q where
  disconnected : ∀ {u s}, s.disconnected = false → Q [] u s →
    Q [.event .disconnected] u { s with disconnected := true }
  rewind : ∀ {u s}, Q [] u s → Q [] u { s with window := s.window.rewind }
  restarted : ∀ {u s}, Q [] u s → Q [] u s.restarted

namespace Enduring

variable {upper : Upper υ ω} {Q : List Call → υ → LinkState δ ω → Prop}
  (enduring : Enduring upper Q)
include enduring

theorem checkTimeout {u : υ} {s : LinkState δ ω} (holds : Q [] u s) :
    Q [] (s.checkTimeout upper u).1 (s.checkTimeout upper u).2 :=
  enduring.attending.checkTimeout enduring.disconnected enduring.rewind holds

theorem act {act : Act δ} (ul : υ × Link δ ω) (untuned : ∀ driver, act ≠ .tune driver)
    (holds : Q [] ul.1 ul.2.state) :
    Q [] (Link.act upper ul act).1 (Link.act upper ul act).2.state := by
  cases act with
  | send metadata payload => exact enduring.utters (utters_send _ metadata payload) holds
  | receive chunk => exact enduring.attending.receive chunk ul holds
  | process => exact enduring.checkTimeout (enduring.flush holds)
  | reset => exact enduring.flush (enduring.restarted holds)
  | tune driver => exact absurd rfl (untuned driver)

/-- What endures holds at the end of a run if it held at the start, and still held whenever the
driver had changed. -/
theorem acts_of_tuned (acts : List (Act δ)) (ul : υ × Link δ ω)
    (tuned : ∀ earlier driver later, acts = earlier ++ .tune driver :: later →
      let m := Link.acts upper ul earlier
      Q [] m.1 m.2.state → Q [] m.1 { m.2.state with driver })
    (holds : Q [] ul.1 ul.2.state) :
    Q [] (Link.acts upper ul acts).1 (Link.acts upper ul acts).2.state := by
  induction acts generalizing ul with
  | nil => exact holds
  | cons act rest ih =>
    apply ih
    · intro earlier driver later same
      exact tuned (act :: earlier) driver later (congrArg (act :: ·) same)
    · by_cases tune : ∃ driver, act = .tune driver
      · obtain ⟨driver, rfl⟩ := tune
        exact tuned [] driver rest rfl holds
      · exact enduring.act ul (fun driver same => tune ⟨driver, same⟩) holds

theorem acts (tuned : ∀ {u s} (driver : δ), Q [] u s → Q [] u { s with driver })
    (acts : List (Act δ)) (ul : υ × Link δ ω) (holds : Q [] ul.1 ul.2.state) :
    Q [] (Link.acts upper ul acts).1 (Link.acts upper ul acts).2.state :=
  enduring.acts_of_tuned acts ul (fun _ driver _ _ => tuned driver) holds

end Enduring

/-- Every single emission keeps the property, and so does whatever else happens to a link and the
layer above it. -/
structure Lasting (upper : Upper υ ω) (P : υ → LinkState δ ω → Prop) : Prop where
  emission : ∀ {u s s'}, Emission s s' → P u s → P u s'
  reaction : ∀ {u s s' happening calls}, Reaction s happening s' calls → P u s → P u s'
  told : ∀ {u s} (call : Call), P u s → P (tell upper (u, s) call).1 (s.log call.action)
  counted : ∀ {u s} (counters : Framing.Counters), P u s →
    P u { s with status := s.status.withCounters counters }
  disconnected : ∀ {u s}, P u s → P u { s with disconnected := true }
  rewind : ∀ {u s}, P u s → P u { s with window := s.window.rewind }
  restarted : ∀ {u s}, P u s → P u s.restarted
  driver : ∀ {u s} (driver : δ), P u s → P u { s with driver }

namespace Lasting

variable {upper : Upper υ ω} {P : υ → LinkState δ ω → Prop} (lasting : Lasting upper P)
include lasting

theorem emits {u : υ} {s s' : LinkState δ ω} (emits : Emits s s') (holds : P u s) : P u s' :=
  emits.keep lasting.emission holds

theorem enduring : Enduring upper fun _ => P where
  utterance utterance holds := lasting.emits utterance.emits holds
  reaction reaction holds := lasting.reaction reaction holds
  told call _ holds := lasting.told call holds
  counted counters holds := lasting.counted counters holds
  disconnected _ holds := lasting.disconnected holds
  rewind holds := lasting.rewind holds
  restarted holds := lasting.restarted holds

theorem act (act : Act δ) (ul : υ × Link δ ω) (holds : P ul.1 ul.2.state) :
    P (Link.act upper ul act).1 (Link.act upper ul act).2.state :=
  lasting.enduring.acts lasting.driver [act] ul holds

/-- A property that lasts holds at the end of a run if it held at the start. -/
theorem acts (acts : List (Act δ)) (ul : υ × Link δ ω) (holds : P ul.1 ul.2.state) :
    P (Link.acts upper ul acts).1 (Link.acts upper ul acts).2.state :=
  lasting.enduring.acts lasting.driver acts ul holds

end Lasting

end LinkState

end FramedLink
