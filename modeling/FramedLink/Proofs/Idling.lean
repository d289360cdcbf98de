import FramedLink.Proofs.Exhausting
import FramedLink.Proofs.Forgetting
import FramedLink.Proofs.Overdue
import FramedLink.Proofs.Pair
import FramedLink.Simulation.Wire

/-! # How long a link may idle

The service interval says when there is something to do, and it is exact: until then nothing
happens, however often the link is asked, and then something does.
-/

namespace FramedLink

open FramedLink.Frame FramedLink.Journal

variable {δ ω υ : Type} [Driver δ]

namespace LinkState

/-- A link has work if it is not exhausted. That no data frame fits where a control frame does not
is what the length of its frames is for. -/
theorem hasWork_iff {s : LinkState δ ω}
    (long : ∀ f ∈ s.window.frames, controlSize ≤ f.image.length) :
    s.hasWork = true ↔ ¬ s.Exhausted := by
  have first {f : Outgoing} (found : s.window.firstPending? = some f) :
      controlSize ≤ f.image.length := long f (List.mem_of_find?_eq_some found)
  unfold hasWork Exhausted
  cases found : s.window.firstPending? with
  | none => cases s.control.waiting <;> simp
  | some f =>
    have longer := first found
    cases s.control.waiting with
    | nil => simp
    | cons g rest =>
      simp only [List.isEmpty_cons, Bool.not_false, Bool.true_and, Option.any_some, Bool.or_eq_true,
        decide_eq_true_eq, ne_eq, reduceCtorEq, not_false_eq_true, true_and, false_and, or_false]
      omega

omit [Driver δ] in
private theorem Traces.controlSize_le {s : LinkState δ ω} (h : s.Traces) :
    ∀ f ∈ s.window.frames, controlSize ≤ f.image.length := by
  obtain ⟨-, tracing⟩ := h
  intro f among
  obtain ⟨frame, -, image⟩ := tracing.image_eq among
  have overhead : controlSize ≤ overhead := by decide
  rw [image, DataFrame.length_image]
  omega

section Interval

variable {s : LinkState δ ω} {later : δ}

/-- What a link has to do without regard to the time depends on the space of its driver only. -/
theorem exhausted_tune (space : Driver.space later = s.space) :
    { s with driver := later }.Exhausted ↔ s.Exhausted := by
  change (_ ∧ Driver.space later < _) ∨ (_ ∧ ∀ f, _ → Driver.space later < _) ↔ _
  rw [space]
  rfl

private theorem hasWork_of_serviceInterval_pos (some : 0 < s.serviceInterval) :
    s.hasWork = false := by
  apply Bool.eq_false_iff.mpr
  intro work
  unfold serviceInterval at some
  rw [if_pos work] at some
  exact Nat.lt_irrefl 0 some

private theorem sent_of_serviceInterval_eq_zero (idle : s.hasWork = false)
    (patient : 0 < s.config.timeout) (none : s.serviceInterval = 0) :
    s.window.oldestSent? ≠ .none := by
  intro nothing
  unfold serviceInterval at none
  rw [idle, nothing] at none
  exact absurd none (Nat.ne_of_gt patient)

/-- A link without work has nothing sent that is overdue before the interval is over, and from then
on whatever was sent is. -/
theorem overdue_tune (idle : s.hasWork = false) (past : ∀ f ∈ s.window.frames, f.phase = .sent →
    f.sentAt ≤ s.clock) (passed : s.clock ≤ Driver.clock later) :
    { s with driver := later }.Overdue ↔
      s.window.oldestSent? ≠ none ∧ s.clock + s.serviceInterval ≤ Driver.clock later := by
  change (∃ oldest, s.window.oldestSent? = some oldest ∧
    s.config.timeout ≤ Driver.clock later - oldest.sentAt) ↔ _
  unfold serviceInterval
  rw [idle]
  cases found : s.window.oldestSent? with
  | none => simp
  | some oldest =>
    obtain ⟨first, sent⟩ := Option.filter_eq_some_iff.mp found
    have before := past oldest (List.mem_of_mem_head? first) (of_decide_eq_true sent)
    simp only [Option.some.injEq, exists_eq_left', Bool.false_eq_true, if_false, ne_eq,
      reduceCtorEq, not_false_eq_true, true_and]
    omega

end Interval

end LinkState

namespace Link

open LinkState Simulation

/-- When time passes, the oldest frame is overdue: the layer above is warned if need be, and then
the window is sent again, with all frames that were sent before. -/
def Rewinds (upper : Upper υ ω) (u : υ) (l : Link δ ω) : Prop :=
  let warned := l.state.warn upper u
  l.process upper u = (warned.1, { l with state := warned.2.resend }) ∧
    ∀ f ∈ l.state.window.frames, f.phase = .sent → f ∈ warned.2.window.frames

section Process

variable (upper : Upper υ ω) (u : υ) {l : Link δ ω}

private theorem rewinds_of_overdue (exhausted : l.state.Exhausted) (overdue : l.state.Overdue) :
    Rewinds upper u l := by
  refine ⟨?_, fun f among sent => mem_warn_of_sent upper u among sent⟩
  unfold process
  rw [exhausted.flush_eq, checkTimeout_of_overdue upper u overdue]

private theorem process_of_timely (exhausted : l.state.Exhausted) (timely : ¬ l.state.Overdue) :
    l.process upper u = (u, l) := by
  unfold process
  rw [exhausted.flush_eq, checkTimeout_of_not_overdue upper u timely]

private theorem hands_of_not_exhausted (busy : ¬ l.state.Exhausted) :
    (handed l.state.journal).length < (handed (l.process upper u).2.state.journal).length := by
  have onward := (handed_checkTimeout upper u l.state.flush).length_le
  exact Nat.lt_of_lt_of_le (handed_flush_of_not_exhausted busy) onward

end Process

/-- The service interval is exact. As long as the driver has the space that it has now, nothing
happens before the interval is over, and nothing changes. If it is zero, something is handed over at
once, or what was sent is sent again. If it is not and the oldest frame was sent, all that was sent
is sent again at the end of the interval. -/
theorem serviceInterval_exact {config : Config} {driver : δ} {l : Link δ ω}
    (started : ofConfig config driver = .ok l) (upper : Upper υ ω) (u : υ) (acts : List (Act δ)) :
    let m := Link.acts upper (u, l) acts
    let s := m.2.state
    let interval := m.2.serviceInterval
    (∀ f ∈ s.window.frames, f.phase = .sent → f.sentAt ≤ s.clock) →
      ∀ later : δ, Driver.space later = s.space →
        let t : Link δ ω := { m.2 with state.driver := later }
        (0 < interval → s.clock ≤ Driver.clock later → Driver.clock later < s.clock + interval →
          t.process upper m.1 = (m.1, t)) ∧
        (interval = 0 → Driver.clock later = s.clock →
          (handed s.journal).length < (handed (t.process upper m.1).2.state.journal).length ∨
            (∃ f ∈ s.window.frames, f.phase = .sent) ∧ Rewinds upper m.1 t) ∧
        (0 < interval → s.window.oldestSent? ≠ none → Driver.clock later = s.clock + interval →
          Rewinds upper m.1 t) := by
  intro m s interval past later space t
  obtain ⟨valid, -⟩ := ofConfig_eq_ok_iff.mp started
  have settings : s.config = config := ((configured_ofConfig started).acts acts).state.settings
  have traces : s.Traces := traces_acts upper started u acts
  have work : s.hasWork = true ↔ ¬ s.Exhausted := hasWork_iff traces.controlSize_le
  have exhausted (idle : s.hasWork = false) : t.state.Exhausted := by
    apply (exhausted_tune space).mpr
    by_contra busy
    rw [work.mpr busy] at idle
    cases idle
  refine ⟨?_, ?_, ?_⟩
  · intro some passed early
    have idle : s.hasWork = false := hasWork_of_serviceInterval_pos some
    apply process_of_timely upper m.1 (exhausted idle)
    intro overdue
    have elapsed := ((overdue_tune idle past passed).mp overdue).2
    exact Nat.not_lt_of_le elapsed early
  · intro none now
    cases busy : s.hasWork with
    | true =>
      left
      apply hands_of_not_exhausted upper m.1 (l := t)
      exact fun h => work.mp busy ((exhausted_tune space).mp h)
    | false =>
      right
      have first := sent_of_serviceInterval_eq_zero busy (settings ▸ valid.timeout) none
      obtain ⟨oldest, found⟩ := Option.ne_none_iff_exists'.mp first
      obtain ⟨head, sent⟩ := Option.filter_eq_some_iff.mp found
      refine ⟨⟨oldest, List.mem_of_mem_head? head, of_decide_eq_true sent⟩, ?_⟩
      apply rewinds_of_overdue upper m.1 (exhausted busy)
      refine (overdue_tune busy past (Nat.le_of_eq now.symm)).mpr ⟨first, ?_⟩
      show s.clock + interval ≤ _
      omega
  · intro some first elapsed
    have idle : s.hasWork = false := hasWork_of_serviceInterval_pos some
    apply rewinds_of_overdue upper m.1 (exhausted idle)
    exact (overdue_tune idle past (by omega)).mpr ⟨first, Nat.le_of_eq elapsed.symm⟩

/-- At 30 ms a link waits for the answer to a frame that was sent at 0 ms, and it has 70 ms. -/
theorem serviceInterval_waiting :
    let l : Link Wire Unit := ⟨.ofCapacity maxSize, .ofConfig {} {}⟩
    let acts : List (Act Wire) := [.send 7 [1], .tune { now := 30 }]
    let m := Link.acts idleUpper ((), l) acts
    let early : Link Wire Unit := { m.2 with state.driver := { now := 99 } }
    let late : Link Wire Unit := { m.2 with state.driver := { now := 100 } }
    ofConfig {} {} = .ok l ∧ m.2.serviceInterval = 70 ∧
      (∀ f ∈ m.2.state.window.frames, f.phase = .sent → f.sentAt ≤ m.2.state.clock) ∧
      early.process idleUpper m.1 = (m.1, early) ∧ Rewinds idleUpper m.1 late := by
  intro l acts m early late
  have started : ofConfig {} {} = .ok l := ofConfig_eq_ok_iff.mpr ⟨Config.valid_default, rfl⟩
  have interval : m.2.serviceInterval = 70 := by decide +kernel
  have past : ∀ f ∈ m.2.state.window.frames, f.phase = .sent → f.sentAt ≤ m.2.state.clock := by
    decide +kernel
  have holds := serviceInterval_exact started idleUpper () acts past
  refine ⟨started, interval, past, ?_, ?_⟩
  · exact (holds { now := 99 } rfl).1 (by decide +kernel) (by decide +kernel) (by decide +kernel)
  · exact (holds { now := 100 } rfl).2.2 (by decide +kernel) (by decide +kernel) (by decide +kernel)

end Link

end FramedLink
