import Mathlib.Data.List.Chain
import FramedLink.Proofs.Dating
import FramedLink.Proofs.Forgetting

/-! # When the peer is silent

A link counts as disconnected from the moment at which it tells the layer above so until it tells
that the peer is there again, or begins anew of its own accord. It does so in the course of time
only, when the oldest frame of the window went out so often, and the last time so long ago, as the
configuration says.
-/

namespace FramedLink

open FramedLink.Frame FramedLink.Journal

variable {δ υ ω : Type}

/-! ## Turns -/

/-- An entry after which it is known whether the link counts as disconnected. -/
def Entry.isTurn : Entry ω → Bool
  | .left (.raised .connected) => true
  | .left (.raised .disconnected) => true
  | .restarted => true
  | _ => false

theorem Entry.isTurn_iff {entry : Entry ω} :
    entry.isTurn = true ↔ entry = .left (.raised .connected) ∨
      entry = .left (.raised .disconnected) ∨ entry = .restarted := by
  rcases entry with (_ | _ | (_ | _ | _) | _) | _ | _ | _ | _ | _ <;> simp [isTurn]

namespace Journal

def turns (journal : List (Entry ω)) : List (Entry ω) := journal.filter Entry.isTurn

theorem turns_append (newer older : List (Entry ω)) :
    turns (newer ++ older) = turns newer ++ turns older :=
  List.filter_append newer older

/-- The journal after these calls. -/
def called (due : List Call) (journal : List (Entry ω)) : List (Entry ω) :=
  due.foldl (fun journal call => .left call.action :: journal) journal

private theorem turns_called (due : List Call) (journal : List (Entry ω)) :
    turns (called due journal) = turns (called due []) ++ turns journal := by
  induction due generalizing journal with
  | nil => rfl
  | cons call rest ih =>
    calc turns (called rest (.left call.action :: journal))
        = turns (called rest []) ++ turns ([.left call.action] ++ journal) := ih _
      _ = turns (called rest []) ++ turns [.left call.action] ++ turns journal := by
        rw [turns_append, List.append_assoc]
      _ = turns (called rest [.left call.action]) ++ turns journal := by
        rw [ih [.left call.action]]

/-- The newest turn says whether the link counts as disconnected, and it does not become so
twice. -/
structure Turned (turns : List (Entry ω)) (disconnected : Bool) : Prop where
  apart : turns.IsChain fun newer older =>
    ¬(newer = .left (.raised .disconnected) ∧ older = .left (.raised .disconnected))
  newest : disconnected = true ↔ turns.head? = some (.left (.raised .disconnected))

namespace Turned

variable {turns : List (Entry ω)} {disconnected : Bool}

theorem nothing : Turned ([] : List (Entry ω)) false := ⟨.nil, nofun, nofun⟩

theorem regain (h : Turned turns disconnected) {entry : Entry ω}
    (other : entry ≠ .left (.raised .disconnected)) : Turned (entry :: turns) false where
  apart := h.apart.cons fun _ _ both => other both.1
  newest := ⟨nofun, fun same => absurd (Option.some.inj same) other⟩

theorem lose (h : Turned turns false) :
    Turned (.left (.raised .disconnected) :: turns) true where
  apart := by
    apply h.apart.cons
    intro newest first both
    rw [both.2] at first
    exact absurd (h.newest.mpr first) Bool.false_ne_true
  newest := ⟨fun _ => rfl, fun _ => rfl⟩

end Turned

section Reading

variable {journal : List (Entry ω)} {disconnected : Bool}

/-- Turns among which the link neither heard of the peer nor began anew are disconnections. -/
theorem eq_of_mem_turns {entries : List (Entry ω)} (silent : .left (.raised .connected) ∉ entries)
    (ongoing : .restarted ∉ entries) {entry : Entry ω} (among : entry ∈ turns entries) :
    entry = .left (.raised .disconnected) := by
  obtain ⟨inside, turn⟩ := List.mem_filter.mp among
  rcases Entry.isTurn_iff.mp turn with rfl | same | rfl
  · exact absurd inside silent
  · exact same
  · exact absurd inside ongoing

theorem Turned.between (h : Turned (turns journal) disconnected)
    {newer middle older : List (Entry ω)}
    (split : journal = newer ++ .left (.raised .disconnected) :: middle ++
      .left (.raised .disconnected) :: older) :
    .left (.raised .connected) ∈ middle ∨ .restarted ∈ middle := by
  by_contra none
  obtain ⟨silent, ongoing⟩ := not_or.mp none
  have same : turns journal = turns newer ++ .left (.raised .disconnected) ::
      (turns middle ++ .left (.raised .disconnected) :: turns older) := by
    rw [split, List.append_assoc, turns_append]
    congr 1
    exact congrArg _ (turns_append middle _)
  have chain := (same ▸ h.apart).right_of_append
  cases between : turns middle with
  | nil =>
    rw [between] at chain
    exact chain.rel ⟨rfl, rfl⟩
  | cons first rest =>
    rw [between] at chain
    have first := eq_of_mem_turns silent ongoing (between ▸ List.mem_cons_self)
    exact chain.rel ⟨rfl, first⟩

theorem Turned.disconnected_iff (h : Turned (turns journal) disconnected) :
    disconnected = true ↔ ∃ newer older, journal = newer ++ .left (.raised .disconnected) :: older ∧
      .left (.raised .connected) ∉ newer ∧ .restarted ∉ newer := by
  rw [h.newest]
  constructor
  · intro newest
    obtain ⟨rest, first⟩ := List.head?_eq_some_iff.mp newest
    obtain ⟨newer, older, rfl, none, -, -⟩ := List.filter_eq_cons_iff.mp first
    exact ⟨newer, older, rfl, fun among => none _ among rfl, fun among => none _ among rfl⟩
  · rintro ⟨newer, older, rfl, silent, ongoing⟩
    rw [turns_append]
    cases front : turns newer with
    | nil => rfl
    | cons first rest =>
      have first := eq_of_mem_turns silent ongoing (front ▸ List.mem_cons_self)
      rw [first]
      rfl

end Reading

end Journal

namespace LinkState

variable {s s' : LinkState δ ω} {due : List Call}

/-- The turns of the journal, with those that are still to be told, say whether the link counts as
disconnected. -/
def Turns (due : List Call) (s : LinkState δ ω) : Prop :=
  Turned (turns (called due s.journal)) s.disconnected

theorem Turns.entry (h : s.Turns due) {entry : Entry ω} (straight : entry.isTurn = false)
    (journal : s'.journal = entry :: s.journal) (same : s'.disconnected = s.disconnected) :
    s'.Turns due := by
  unfold Turns at h ⊢
  have turns_eq : turns (entry :: s.journal) = turns s.journal := by
    rw [turns, List.filter_cons_of_neg (by simp [straight])]
    rfl
  rw [journal, same, turns_called, turns_eq, ← turns_called]
  exact h

theorem Turns.emission [Driver δ] (h : s.Turns due) (emission : Emission s s') : s'.Turns due := by
  cases emission with
  | handControl => exact h.entry rfl rfl rfl
  | @handData _ _ f =>
    have going : (s.note (.going f.place)).Turns due := h.entry rfl rfl rfl
    exact going.entry rfl rfl rfl
  | accept => exact h.entry rfl rfl rfl
  | remark => exact h.entry rfl rfl rfl

theorem Turns.reaction {happening : Framing.Happening} {calls : List Call} (h : s.Turns [])
    (reaction : Reaction s happening s' calls) : s'.Turns calls := by
  cases reaction with
  | accept => exact h
  | again => exact h
  | ask => exact h
  | pass => exact h
  | keep => exact h
  | release => exact h
  | resume => exact h.regain nofun
  | request => exact h.regain nofun
  | response => exact h.regain nofun
  | lost => exact h

theorem enduring_turns [Driver δ] (upper : Upper υ ω) :
    Enduring upper fun due _ (s : LinkState δ ω) => s.Turns due where
  utterance utterance h := utterance.emits.keep (fun emission h => h.emission emission) h
  reaction reaction h := h.reaction reaction
  told _ _ h := h
  counted _ h := h
  disconnected := by
    intro u s connected h
    have before : Turned (turns s.journal) s.disconnected := h
    rw [connected] at before
    exact before.lose
  rewind h := h
  restarted h := h.regain nofun

/-! ## What leaves the peer alone -/

/-- Nothing was said of a disconnection since the journal was this, and nothing is to be. -/
def Unbroken (journal : List (Entry ω)) (due : List Call) (s : LinkState δ ω) : Prop :=
  .event .disconnected ∉ due ∧
    ∃ newer, s.journal = newer ++ journal ∧ .left (.raised .disconnected) ∉ newer

namespace Unbroken

variable {journal : List (Entry ω)}

theorem refl (s : LinkState δ ω) : s.Unbroken s.journal [] := ⟨nofun, [], rfl, nofun⟩

theorem entry (h : s.Unbroken journal due) (entry : Entry ω) {due' : List Call}
    (later : .event .disconnected ∉ due') (other : entry ≠ .left (.raised .disconnected))
    (same : s'.journal = entry :: s.journal) : s'.Unbroken journal due' := by
  obtain ⟨-, newer, before, none⟩ := h
  refine ⟨later, entry :: newer, same.trans (congrArg (entry :: ·) before), ?_⟩
  rw [List.mem_cons, not_or]
  exact ⟨Ne.symm other, none⟩

theorem emission [Driver δ] (h : s.Unbroken journal due) (emission : Emission s s') :
    s'.Unbroken journal due := by
  cases emission with
  | handControl => exact h.entry (.left (.handed _)) h.1 nofun rfl
  | @handData _ _ f =>
    have going : (s.note (.going f.place)).Unbroken journal due :=
      h.entry (.going f.place) h.1 nofun rfl
    exact going.entry (.left (.handed _)) h.1 nofun rfl
  | accept => exact h.entry (.accepted _ _) h.1 nofun rfl
  | remark => exact h.entry (.left (.remarked _)) h.1 nofun rfl

theorem reaction {happening : Framing.Happening} {calls : List Call} (h : s.Unbroken journal [])
    (reaction : Reaction s happening s' calls) : s'.Unbroken journal calls := by
  cases reaction with
  | accept => exact ⟨by simp, h.2⟩
  | again => exact h
  | ask => exact h
  | pass => exact h
  | keep => exact h
  | release => exact h.entry (.released _) nofun nofun rfl
  | resume => exact h.entry (.released _) (by simp) nofun rfl
  | request => exact h.entry .cleared (by simp) nofun rfl
  | response => exact ⟨by simp, h.2⟩
  | lost => exact h

theorem absurd (h : s.Unbroken journal due) {newer older : List (Entry ω)}
    (split : s.journal = newer ++ .left (.raised .disconnected) :: older ++ journal) : False := by
  obtain ⟨-, entries, same, none⟩ := h
  have entries_eq := List.append_cancel_right (same.symm.trans split)
  exact none (entries_eq ▸ List.mem_append_right newer List.mem_cons_self)

end Unbroken

theorem heeding_unbroken [Driver δ] (upper : Upper υ ω) (journal : List (Entry ω)) :
    Heeding upper fun due _ (s : LinkState δ ω) => s.Unbroken journal due where
  utterance utterance h := utterance.emits.keep (fun emission h => h.emission emission) h
  reaction reaction h := h.reaction reaction
  told := by
    intro u s call due h
    obtain ⟨first, later⟩ := not_or.mp (mt List.mem_cons.mpr h.1)
    refine h.entry _ later ?_ rfl
    rintro same
    cases call with
    | event event =>
      cases same
      exact first rfl
    | data => cases same
  counted _ h := h

section Raising

variable [Driver δ] (upper : Upper υ ω)

/-- Of a disconnection the layer above is told at most once when time has passed, and then because
of the oldest frame. -/
theorem unbroken_checkTimeout (u : υ) (s : LinkState δ ω) :
    (s.checkTimeout upper u).2.Unbroken s.journal [] ∨
      ∃ oldest, s.window.oldestSent? = some oldest ∧
        s.config.timeout ≤ s.clock - oldest.sentAt ∧ s.config.retries ≤ oldest.attempts ∧
          (s.checkTimeout upper u).2.Unbroken (.left (.raised .disconnected) :: s.journal) [] := by
  have flushes {journal : List (Entry ω)} {s : LinkState δ ω} (h : s.Unbroken journal []) :
      { s with window := s.window.rewind }.flush.Unbroken journal [] :=
    (heeding_unbroken upper journal).flush (u := u) h
  rcases checkTimeout_cases upper u s with
    same | ⟨_, _, _, same⟩ | ⟨oldest, first, due, tried, _, same⟩
  · left
    rw [same]
    exact .refl s
  · left
    rw [same]
    exact flushes (.refl s)
  · right
    refine ⟨oldest, first, due, tried, ?_⟩
    rw [same]
    have logged : ({ s with disconnected := true }.log (.raised .disconnected)).Unbroken
        (.left (.raised .disconnected) :: s.journal) [] := .refl _
    have told := utters_tell upper (u, { s with disconnected := true }) (.event .disconnected)
    exact flushes ((heeding_unbroken upper _).utters (u := u) told logged)

/-- The layer above is told of a disconnection only in the course of time, right after a flush and
because of the oldest frame. -/
theorem process_of_raised {ul : υ × Link δ ω} {act : Act δ} {newer older : List (Entry ω)}
    (split : (Link.act upper ul act).2.state.journal =
      newer ++ .left (.raised .disconnected) :: older ++ ul.2.state.journal) :
    let s := ul.2.state.flush
    act = .process ∧ s.journal = older ++ ul.2.state.journal ∧
      ∃ oldest, s.window.oldestSent? = some oldest ∧
        s.config.timeout ≤ s.clock - oldest.sentAt ∧ s.config.retries ≤ oldest.attempts := by
  intro s
  have heeding := heeding_unbroken (δ := δ) upper ul.2.state.journal
  have start : ul.2.state.Unbroken ul.2.state.journal [] := .refl _
  cases act with
  | send metadata payload =>
    have quiet := heeding.utters (u := ul.1) (utters_send ul.2.state metadata payload) start
    exact (quiet.absurd split).elim
  | receive chunk =>
    have quiet := heeding.attending.receive chunk ul start
    exact (quiet.absurd split).elim
  | reset =>
    have cleared : ul.2.state.clear.Unbroken ul.2.state.journal [] :=
      start.entry .cleared nofun nofun rfl
    have restarted : ul.2.state.restarted.Unbroken ul.2.state.journal [] :=
      cleared.entry .restarted nofun nofun rfl
    have quiet := heeding.flush (u := ul.1) restarted
    exact (quiet.absurd split).elim
  | tune driver => exact (start.absurd split).elim
  | process =>
    obtain ⟨-, before, flushed, none⟩ : s.Unbroken ul.2.state.journal [] :=
      heeding.flush (u := ul.1) start
    rcases unbroken_checkTimeout upper ul.1 s with
      ⟨-, after, told, silent⟩ | ⟨oldest, first, due, tried, -, after, told, silent⟩
    · have quiet : (Link.act upper ul .process).2.state.Unbroken ul.2.state.journal [] := by
        refine ⟨nofun, after ++ before, ?_, ?_⟩
        · rw [List.append_assoc, ← flushed]
          exact told
        · exact fun among => (List.mem_append.mp among).elim silent none
      exact (quiet.absurd split).elim
    · refine ⟨rfl, ?_, oldest, first, due, tried⟩
      have whole : after ++ .left (.raised .disconnected) :: before ++ ul.2.state.journal =
          newer ++ .left (.raised .disconnected) :: older ++ ul.2.state.journal := by
        rw [← split, List.append_assoc, List.cons_append, ← flushed]
        exact told.symm
      have same := List.append_cancel_right whole
      have parts := (List.append_cons_inj_of_notMem silent none).mp same
      rw [flushed, parts.2.2]

end Raising

end LinkState

namespace Link

open Simulation

variable [Driver δ]

/-- Whatever is done with a link, between two disconnections the peer was there again or the link
began anew of its own accord, and it counts as disconnected exactly if of these three the last that
happened is a disconnection. A further act brings a disconnection only if time passes in it, and
right after its flush: the oldest frame of the window had then been handed over so often, and the
last time so long before, as the configuration says. -/
theorem disconnects_acts {config : Config} {driver : δ} {l : Link δ ω}
    (started : ofConfig config driver = .ok l) (upper : Upper υ ω) (u : υ) (acts : List (Act δ)) :
    let m := (Link.acts upper (u, l) acts).2.state
    (∀ newer middle older, m.journal = newer ++ .left (.raised .disconnected) :: middle ++
        .left (.raised .disconnected) :: older →
      .left (.raised .connected) ∈ middle ∨ .restarted ∈ middle) ∧
    (m.disconnected = true ↔ ∃ newer older,
      m.journal = newer ++ .left (.raised .disconnected) :: older ∧
        .left (.raised .connected) ∉ newer ∧ .restarted ∉ newer) ∧
    ∀ act newer older, (Link.acts upper (u, l) (acts ++ [act])).2.state.journal =
        newer ++ .left (.raised .disconnected) :: older ++ m.journal →
      let s := m.flush
      act = .process ∧ s.journal = older ++ m.journal ∧
        ∃ f rest, s.window.frames = f :: rest ∧
          Transmits (part (clears s.journal) s.journal) ∧
          Traced (present s.journal).sends (gone s.journal) f ∧
          config.retries ≤ (gone s.journal).count f.place ∧
          HandedLast (Dates upper (u, l) (acts ++ [act])) s.journal f.place f.sentAt ∧
          f.sentAt + config.timeout ≤ s.clock := by
  intro m
  have configured : l.state.Configured config := (configured_ofConfig started).state
  obtain ⟨valid, same⟩ := ofConfig_eq_ok_iff.mp started
  have fresh : l.state.Turns [] := by
    rw [same]
    exact Turned.nothing
  have turned := (LinkState.enduring_turns upper).acts (fun _ h => h) acts (u, l) fresh
  refine ⟨fun _ _ _ => turned.between, turned.disconnected_iff, ?_⟩
  intro act newer older split s
  rw [acts_concat] at split
  obtain ⟨rfl, flushed, oldest, first, due, tried⟩ := LinkState.process_of_raised upper split
  have flushed : s.journal = older ++ m.journal := flushed
  refine ⟨rfl, flushed, ?_⟩
  have settings : s.config = config := by
    have lasting := LinkState.lasting_configured (δ := δ) upper config
    have here : m.Configured config := lasting.acts acts (u, l) configured
    exact (lasting.emits (u := u) (LinkState.emits_flush m) here).settings
  have start (dates) : l.state.Dated dates := by
    rw [same]
    exact LinkState.dated_ofConfig dates config driver
  have before : m.Dated (DatesNow upper (u, l) acts) :=
    (dated_acts start acts).imp fun _ _ _ => .inl
  have dated : s.Dated (DatesNow upper (u, l) acts) :=
    before.flush (LinkState.Since.refl m) fun _ _ => .inr
  obtain ⟨head, sent⟩ := Option.filter_eq_some_iff.mp first
  obtain ⟨rest, frames⟩ := List.head?_eq_some_iff.mp head
  have among : oldest ∈ s.window.frames := frames ▸ List.mem_cons_self
  have traced := dated.tracing.traced oldest among
  have known := dated.known _ (List.mem_map_of_mem (f := Outgoing.past) among)
  refine ⟨oldest, rest, frames, dated.tracing.transmitted _, traced, ?_, ?_, ?_⟩
  · have counted : oldest.attempts =
        min ((gone s.journal).count oldest.place) Outgoing.maxAttempts := known.attempts
    rw [settings, counted] at tried
    exact tried.trans (Nat.min_le_left _ _)
  · have inside : s.journal <:+ (Link.acts upper (u, l) (acts ++ [.process])).2.state.journal := by
      rw [acts_concat, split, flushed]
      exact ⟨newer ++ [.left (.raised .disconnected)], by simp⟩
    have last := known.last (traced.phase (of_decide_eq_true sent))
    exact last.imp fun _ _ before dates => dates.concat (before.trans inside)
  · have due : s.config.timeout ≤ s.clock - oldest.sentAt := due
    rw [settings] at due
    have positive := valid.timeout
    omega

/-- A frame is sent twice in vain, at last it is acknowledged, and then the same happens to the next
frame. -/
theorem disconnects_again :
    let l : Link Wire Unit := ⟨.ofCapacity maxSize, .ofConfig { retries := 2 } {}⟩
    let acts : List (Act Wire) := [.send 7 [1], .tune { now := 100 }, .process,
      .tune { now := 200 }, .process, .receive (ControlFrame.image ⟨.ackAll, 0⟩), .send 7 [2],
      .tune { now := 300 }, .process, .tune { now := 400 }]
    let m := (Link.acts idleUpper ((), l) acts).2.state
    let after := (Link.acts idleUpper ((), l) (acts ++ [.process])).2.state
    let last := after.journal.take 2
    let middle := (after.journal.drop 3).take 9
    ofConfig { retries := 2 } {} = .ok l ∧
      after.journal = last ++ .left (.raised .disconnected) :: middle ++
        .left (.raised .disconnected) :: after.journal.drop 13 ∧
      .left (.raised .connected) ∈ middle ∧ m.disconnected = false ∧
      after.journal = last ++ .left (.raised .disconnected) :: [] ++ m.journal ∧
      after.disconnected = true ∧
      ∃ f rest, m.flush.window.frames = f :: rest ∧ 2 ≤ (gone m.flush.journal).count f.place ∧
        HandedLast (Dates idleUpper ((), l) (acts ++ [.process])) m.flush.journal f.place f.sentAt ∧
          f.sentAt + 100 ≤ m.flush.clock := by
  intro l acts m after last middle
  have started : ofConfig { retries := 2 } {} = .ok l :=
    ofConfig_eq_ok_iff.mpr ⟨Config.validate_eq_ok_iff.mp rfl, rfl⟩
  obtain ⟨-, -, further⟩ := disconnects_acts started idleUpper () acts
  obtain ⟨between, silent, -⟩ := disconnects_acts started idleUpper () (acts ++ [.process])
  have twice : after.journal = last ++ .left (.raised .disconnected) :: middle ++
      .left (.raised .disconnected) :: after.journal.drop 13 := by decide +kernel
  have raised : after.journal =
      last ++ .left (.raised .disconnected) :: [] ++ m.journal := by decide +kernel
  have ongoing : .restarted ∉ middle := by decide +kernel
  have again := (between _ _ _ twice).resolve_right ongoing
  have lost : after.disconnected = true := by
    refine silent.mpr ⟨_, _, raised.trans (by rw [List.append_assoc]; rfl), ?_, ?_⟩
    · decide +kernel
    · decide +kernel
  rw [show (Link.acts idleUpper ((), l) acts).2.state = m from rfl] at further
  obtain ⟨-, -, f, rest, frames, -, -, often, handed, due⟩ := further _ _ _ raised
  exact ⟨started, twice, again, by decide +kernel, raised, lost, f, rest, frames, often, handed,
    due⟩

end Link

end FramedLink
