import FramedLink.Proofs.Exhausting
import FramedLink.Proofs.Forgetting
import FramedLink.Proofs.Renewal

/-! # Requests that wait

A link that begins anew while its driver has no space keeps its request, and hands over nothing
before it. As far as the peer can tell, such a link has not begun anew yet. If it begins anew once
more meanwhile, or a request of the peer comes first, what was in between is void, and its journal
is retold without it.
-/

namespace FramedLink

open FramedLink.Frame FramedLink.Journal

variable {δ ω υ α : Type}

/-! ## Journals retold -/

/-- An entry of something that a link does of its own accord. -/
def Entry.Aside (entry : Entry ω) : Prop :=
  entry.Idle ∨ ∃ metadata payload, entry = .accepted metadata payload

theorem Entry.Aside.ne_cleared {entry : Entry ω} (aside : entry.Aside) : entry ≠ .cleared := by
  rintro rfl
  rcases aside with idle | ⟨_, _, same⟩
  · exact idle
  · cases same

namespace Journal

section Cons

variable {entry : Entry ω} (kept : entry ≠ .cleared) (earlier : List (Entry ω))
include kept

theorem clears_cons : clears (entry :: earlier) = clears earlier := by
  cases entry <;> first | rfl | exact absurd rfl kept

theorem present_cons : present (entry :: earlier) = (present earlier).add entry := by
  rw [present, clears_cons kept, ofEpoch_cons, if_pos rfl, present]

end Cons

theorem ofEpoch_cons_of_lt {epoch : Nat} {earlier : List (Entry ω)}
    (before : epoch < clears earlier) (entry : Entry ω) :
    ofEpoch epoch (entry :: earlier) = ofEpoch epoch earlier := by
  rw [ofEpoch_cons, if_neg (Nat.ne_of_gt before)]

/-- A link began anew on top of a journal, and has taken nothing since. -/
inductive Anew (before : List (Entry ω)) : List (Entry ω) → Prop where
  | begun : Anew before (.restarted :: .cleared :: before)
  | note {told : List (Entry ω)} {entry : Entry ω} (anew : Anew before told)
      (aside : entry.Aside) : Anew before (entry :: told)

/-- A journal is retold without some of the epochs in which nothing was delivered. -/
structure Echoes (told real : List (Entry ω)) : Prop where
  present : present told = present real
  past : ∀ epoch < clears told, ∃ epoch' < clears real, ofEpoch epoch' real = ofEpoch epoch told
  passed : ∀ epoch < clears real, (ofEpoch epoch real).deliveries = [] ∨
    ∃ epoch' < clears told, ofEpoch epoch' told = ofEpoch epoch real

variable {before told real : List (Entry ω)}

theorem Anew.clears_eq (anew : Anew before told) : clears told = clears before + 1 := by
  induction anew with
  | begun => rfl
  | note _ aside ih => exact (clears_cons aside.ne_cleared _).trans ih

theorem Anew.ofEpoch_eq (anew : Anew before told) {epoch : Nat} (past : epoch < clears told) :
    ofEpoch epoch told = ofEpoch epoch before := by
  induction anew with
  | begun => rw [ofEpoch_restarted, ofEpoch_cleared]
  | note anew aside ih =>
    rw [clears_cons aside.ne_cleared] at past
    exact (ofEpoch_cons_of_lt past _).trans (ih past)

theorem Anew.deliveries_eq (anew : Anew before told) : (present told).deliveries = [] := by
  induction anew with
  | begun => rw [present_restarted, present_cleared]
  | note anew aside ih =>
    rcases aside with idle | ⟨metadata, payload, rfl⟩
    · rw [present_idle idle]
      exact ih
    · rw [present_accepted]
      exact ih

private theorem Anew.counted_eq (anew : Anew before told) : counted told = 0 := by
  induction anew with
  | begun => rfl
  | note anew aside ih =>
    rcases aside with idle | ⟨metadata, payload, rfl⟩
    · exact (counted_idle idle _).trans ih
    · exact ih

namespace Echoes

theorem refl (journal : List (Entry ω)) : Echoes journal journal :=
  ⟨rfl, fun epoch past => ⟨epoch, past, rfl⟩, fun epoch past => .inr ⟨epoch, past, rfl⟩⟩

theorem cleared (h : Echoes told real) : Echoes (.cleared :: told) (.cleared :: real) := by
  refine ⟨by rw [present_cleared, present_cleared], fun epoch past => ?_, fun epoch past => ?_⟩
  · simp only [ofEpoch_cleared]
    rcases Nat.lt_succ_iff_lt_or_eq.mp past with past | rfl
    · obtain ⟨epoch', past', same⟩ := h.past epoch past
      exact ⟨epoch', Nat.lt_succ_of_lt past', same⟩
    · exact ⟨clears real, Nat.lt_succ_self _, h.present.symm⟩
  · simp only [ofEpoch_cleared]
    rcases Nat.lt_succ_iff_lt_or_eq.mp past with past | rfl
    · refine (h.passed epoch past).imp_right ?_
      rintro ⟨epoch', past', same⟩
      exact ⟨epoch', Nat.lt_succ_of_lt past', same⟩
    · exact .inr ⟨clears told, Nat.lt_succ_self _, h.present⟩

theorem cons (h : Echoes told real) (entry : Entry ω) : Echoes (entry :: told) (entry :: real) := by
  by_cases same : entry = .cleared
  · rw [same]
    exact h.cleared
  refine ⟨?_, fun epoch past => ?_, fun epoch past => ?_⟩
  · rw [present_cons same, present_cons same, h.present]
  · rw [clears_cons same] at past ⊢
    obtain ⟨epoch', past', echo⟩ := h.past epoch past
    refine ⟨epoch', past', ?_⟩
    rw [ofEpoch_cons_of_lt past, ofEpoch_cons_of_lt past', echo]
  · rw [clears_cons same] at past ⊢
    rw [ofEpoch_cons_of_lt past]
    refine (h.passed epoch past).imp_right ?_
    rintro ⟨epoch', past', echo⟩
    exact ⟨epoch', past', by rw [ofEpoch_cons_of_lt past', echo]⟩

theorem append (h : Echoes told real) (newer : List (Entry ω)) :
    Echoes (newer ++ told) (newer ++ real) := by
  induction newer with
  | nil => exact h
  | cons entry rest ih => exact ih.cons entry

/-- When a link forgets its frames and has taken nothing since it began anew, the time since then is
void. -/
theorem void (h : Echoes told real) (anew : Anew before told) :
    Echoes (.cleared :: before) (.cleared :: real) := by
  refine ⟨by rw [present_cleared, present_cleared], fun epoch past => ?_, fun epoch past => ?_⟩
  · rw [clears, ← anew.clears_eq] at past
    obtain ⟨epoch', past', echo⟩ := h.past epoch past
    refine ⟨epoch', Nat.lt_succ_of_lt past', ?_⟩
    rw [ofEpoch_cleared, ofEpoch_cleared, echo, anew.ofEpoch_eq past]
  · rw [ofEpoch_cleared]
    rcases Nat.lt_succ_iff_lt_or_eq.mp past with past | rfl
    · refine (h.passed epoch past).imp_right ?_
      rintro ⟨epoch', past', echo⟩
      refine ⟨epoch', ?_, ?_⟩
      · rw [clears, ← anew.clears_eq]
        exact past'
      · rw [ofEpoch_cleared, ← anew.ofEpoch_eq past', echo]
    · left
      change (Journal.present real).deliveries = []
      rw [← h.present]
      exact anew.deliveries_eq

theorem recount (h : Echoes (.cleared :: told) real) :
    Echoes (.cleared :: .restarted :: told) real := by
  have same (epoch : Nat) :
      ofEpoch epoch (.cleared :: .restarted :: told) = ofEpoch epoch (.cleared :: told) := by
    simp only [ofEpoch_cleared, ofEpoch_restarted]
  refine ⟨(same _).trans h.present, fun epoch past => ?_, fun epoch past => ?_⟩
  · rw [same]
    exact h.past epoch past
  · simp only [same]
    exact h.passed epoch past

/-- Every epoch that is retold is one of the real ones. -/
theorem ofEpoch_eq (h : Echoes told real) (epoch : Nat) :
    ∃ epoch', ofEpoch epoch' real = ofEpoch epoch told := by
  rcases Nat.lt_trichotomy epoch (clears told) with past | rfl | later
  · obtain ⟨epoch', -, echo⟩ := h.past epoch past
    exact ⟨epoch', echo⟩
  · exact ⟨clears real, h.present.symm⟩
  · refine ⟨clears real + 1, ?_⟩
    rw [ofEpoch_of_clears_lt (Nat.lt_succ_self _), ofEpoch_of_clears_lt later]

end Echoes

end Journal

/-- What a link accepts after it began anew does not disturb a tolerant property. -/
theorem Tolerant.since {W : Property ω} (tolerant : Tolerant W) {before told : List (Entry ω)}
    {way : List Packet} (anew : Anew before told)
    (holds : W (.restarted :: .cleared :: before) way)
    (room : (present told).sends.length ≤ (present told).releases + FrameId.reach) :
    W told way := by
  induction anew with
  | begun => exact holds
  | note _ aside ih =>
    rcases aside with idle | ⟨metadata, payload, rfl⟩
    · rw [present_idle idle] at room
      exact tolerant.idle (ih room) idle
    · simp only [present_accepted, Tally.accept, List.length_append, List.length_singleton] at room
      exact tolerant.accept (ih (Nat.le_of_lt room)) room

namespace LinkState

/-! ## Handing over a request that has waited -/

section Handing

variable [Driver δ]

private theorem handControls_control (queue : List ControlFrame) (s : LinkState δ ω)
    (c : ControlQueue) :
    handControls queue { s with control := c } =
      ((handControls queue s).1, { (handControls queue s).2 with control := c }) := by
  induction queue generalizing s with
  | nil => rfl
  | cons f rest ih =>
    have space : { s with control := c }.space = s.space := rfl
    simp only [handControls, space]
    split
    · rfl
    · exact ih { s.hand f.image with status.tx.controlFrames := s.status.tx.controlFrames + 1 }

private theorem handPending_control (now : Nat) (frames : List Outgoing) (s : LinkState δ ω)
    (c : ControlQueue) :
    handPending now frames { s with control := c } =
      ((handPending now frames s).1, { (handPending now frames s).2 with control := c }) := by
  induction frames generalizing s with
  | nil => rfl
  | cons f rest ih =>
    have space : { s with control := c }.space = s.space := rfl
    have handed : { s with control := c }.handOutgoing f = { s.handOutgoing f with control := c } :=
      rfl
    simp only [handPending, space, handed, ih]
    split
    · rfl
    · split <;> rfl

private theorem flush_cons {s : LinkState δ ω} {f : ControlFrame} {rest : List ControlFrame}
    (waiting : s.control.waiting = f :: rest) (fits : controlSize ≤ s.space) :
    s.flush = { s.hand f.image with
      status.tx.controlFrames := s.status.tx.controlFrames + 1
      control.waiting := rest }.flush := by
  let handed : LinkState δ ω :=
    { s.hand f.image with status.tx.controlFrames := s.status.tx.controlFrames + 1 }
  have controls := handControls_control rest handed { handed.control with waiting := rest }
  have same := congrArg LinkState.control (handControls_frame rest handed)
  change (handControls rest handed).2.control = handed.control at same
  have first : handControls (f :: rest) s = handControls rest handed := by
    rw [handControls, if_neg (Nat.not_lt_of_le fits)]
    rfl
  change _ = { handed with control := { handed.control with waiting := rest } }.flush
  unfold flush
  simp only [waiting, first, controls]
  generalize handControls rest handed = result at same
  obtain ⟨queue, t⟩ := result
  cases queue with
  | cons g others =>
    simp only at same ⊢
    rw [same]
  | nil =>
    have pending := handPending_control t.clock t.window.frames t
      { handed.control with waiting := rest }
    have kept := congrArg LinkState.control (handPending_frame t.clock t.window.frames t)
    change (handPending t.clock t.window.frames t).2.control = t.control at kept
    refine Eq.trans ?_ (congrArg (fun result : List Outgoing × LinkState δ ω =>
      { result.2 with control.waiting := [], window.frames := result.1 }) pending).symm
    simp only [kept, show t.control = handed.control from same]

end Handing

/-! ## What a link stands for -/

/-- The link with its journal retold. -/
def retold (s : LinkState δ ω) (told : List (Entry ω)) : LinkState δ ω := { s with journal := told }

theorem Overlooks.retold {step : LinkState δ ω → α × LinkState δ ω} (overlooks : Overlooks step)
    (s : LinkState δ ω) :
    ∃ newer, (step s).2.journal = newer ++ s.journal ∧
      ∀ told, step (s.retold told) = ((step s).1, (step s).2.retold (newer ++ told)) := by
  have whole : step s = _ := overlooks (s.retold []) s.journal
  refine ⟨(step (s.retold [])).2.journal, by rw [whole]; rfl, fun told => ?_⟩
  rw [whole]
  exact overlooks (s.retold []) told

/-- The request of the link to begin anew waits. -/
def Asks (s : LinkState δ ω) : Prop := s.control.waiting = [⟨.reset, resetRequest⟩]

instance (s : LinkState δ ω) : Decidable s.Asks := inferInstanceAs (Decidable (_ = _))

/-- A response of the link waits. -/
def Answers (s : LinkState δ ω) : Prop := ⟨.reset, resetResponse⟩ ∈ s.control.waiting

instance (s : LinkState δ ω) : Decidable s.Answers := inferInstanceAs (Decidable (_ ∈ _))

private theorem Asks.not_answers {s : LinkState δ ω} (asks : s.Asks) : ¬ s.Answers := by
  rw [Answers, show s.control.waiting = [⟨.reset, resetRequest⟩] from asks]
  decide

/-- Before its peer, a link stands for itself with its journal retold, or, as long as its request
waits, for a link that has not begun anew. -/
inductive Poses (s g : LinkState (Line δ) ω) (told : List (Entry ω)) : (held : Nat) → Prop where
  | plain (same : g = s.retold told) : Poses s g told 0
  | asking (asks : s.Asks) (items : g.driver.items = s.driver.items)
      (arrived : g.driver.arrived = s.driver.arrived) (anew : Anew g.journal told)
      (books : Books told s.window s.nextId s.receiver.expected s.status.tx.dataFrames) :
      Poses s g told 1

/-- The link that a link stands for agrees with its peer `x`. Of the responses for which the link
waits, one may be to a request that waits itself. -/
def Stands (x : View) (old : List Item) (arrived awaiting : Nat) (s : LinkState (Line δ) ω) :
    Prop :=
  ∃ g told resets handed held, Echoes told s.journal ∧ Poses s g told held ∧
    awaiting = handed + held ∧ g.Satisfies old arrived (Agrees resets x handed)

section Posing

variable {s g : LinkState (Line δ) ω} {told : List (Entry ω)} {held : Nat}
  (poses : s.Poses g told held) (echoes : Echoes told s.journal)
include poses echoes

theorem Poses.ofEpoch_eq (epoch : Nat) :
    ∃ epoch', ofEpoch epoch' s.journal = ofEpoch epoch g.journal := by
  cases poses with
  | plain same =>
    rw [same]
    exact echoes.ofEpoch_eq epoch
  | asking _ _ _ anew =>
    by_cases past : epoch < clears told
    · rw [← anew.ofEpoch_eq past]
      exact echoes.ofEpoch_eq epoch
    · refine ⟨clears s.journal + 1, ?_⟩
      rw [ofEpoch_of_clears_lt (Nat.lt_succ_self _), ofEpoch_of_clears_lt]
      rw [anew.clears_eq] at past
      omega

theorem Poses.deliveries_eq (epoch : Nat) :
    ∃ epoch', (ofEpoch epoch' g.journal).deliveries = (ofEpoch epoch s.journal).deliveries := by
  -- In an epoch in which nothing is delivered, the link is like one that has not begun it.
  have nothing (none : (ofEpoch epoch s.journal).deliveries = []) :
      ∃ epoch', (ofEpoch epoch' g.journal).deliveries = (ofEpoch epoch s.journal).deliveries := by
    refine ⟨clears g.journal + 1, ?_⟩
    rw [none, ofEpoch_of_clears_lt (Nat.lt_succ_self _)]
  have retold {epoch' : Nat} (same : ofEpoch epoch' told = ofEpoch epoch s.journal)
      (whole : g.journal = told ∨ epoch' < clears told) :
      ∃ epoch', (ofEpoch epoch' g.journal).deliveries = (ofEpoch epoch s.journal).deliveries := by
    refine ⟨epoch', ?_⟩
    rw [← same]
    cases poses with
    | plain plain => rw [plain]; rfl
    | asking _ _ _ anew =>
      rcases whole with same | past
      · rw [same]
      · rw [anew.ofEpoch_eq past]
  rcases Nat.lt_trichotomy epoch (clears s.journal) with past | rfl | later
  · rcases echoes.passed epoch past with none | ⟨epoch', past', same⟩
    · exact nothing none
    · exact retold same (.inr past')
  · cases poses with
    | plain same => exact retold echoes.present (.inl (by rw [same]; rfl))
    | asking _ _ _ anew =>
      apply nothing
      change (present s.journal).deliveries = []
      rw [← echoes.present]
      exact anew.deliveries_eq
  · apply nothing
    rw [ofEpoch_of_clears_lt later]

end Posing

section Standing

variable {x : View} {rest : List Packet} {old : List Item} {arrived awaiting : Nat}
  {s s' : LinkState (Line δ) ω}

theorem Satisfies.not_asks {W : Property ω} (h : s.Satisfies old arrived W) : ¬ s.Asks := by
  intro asks
  obtain ⟨-, items, waiting, carries, -⟩ := h
  have queue := carries.queue
  rw [show s.control.waiting = [⟨.reset, resetRequest⟩] from asks] at queue
  obtain ⟨packet, rest, rfl, same, -⟩ := List.map_eq_cons_iff.mp queue.symm
  have other := (carries.answers packet List.mem_cons_self).2
  cases packet with
  | data | response => simp [Packet.frame, resetRequest, resetResponse] at same
  | answer kind => cases kind <;> simp [Packet.frame, Answer.toFrame] at same
  | request => exact other rfl

theorem Stands.same (h : s.Stands x old arrived awaiting) (journal : s'.journal = s.journal)
    (window : s'.window = s.window) (nextId : s'.nextId = s.nextId)
    (expected : s'.receiver.expected = s.receiver.expected)
    (counted : s'.status.tx.dataFrames = s.status.tx.dataFrames)
    (waiting : s'.control.waiting = s.control.waiting)
    (items : s'.driver.items = s.driver.items) (begun : s'.driver.arrived = s.driver.arrived) :
    s'.Stands x old arrived awaiting := by
  obtain ⟨g, told, resets, handed, held, echoes, poses, sum, satisfies⟩ := h
  cases poses with
  | plain same =>
    subst same
    obtain ⟨books, carried, queued, carries, agrees⟩ := satisfies
    refine ⟨s'.retold told, told, resets, handed, 0, journal ▸ echoes, .plain rfl, sum, ?_, carried,
      queued, ?_, agrees⟩
    · simp only [retold, window, nextId, expected, counted] at books ⊢
      exact books
    · simp only [retold, waiting] at carries ⊢
      exact carries.onLine items begun
  | asking asks line begun' anew books =>
    refine ⟨g, told, resets, handed, 1, journal ▸ echoes,
      .asking (waiting.trans asks) (line.trans items.symm) (begun'.trans begun.symm) anew ?_, sum,
      satisfies⟩
    rw [window, nextId, expected, counted]
    exact books

theorem Stands.note (h : s.Stands x old arrived awaiting) (entry : Entry ω) (idle : entry.Idle) :
    (s.note entry).Stands x old arrived awaiting := by
  obtain ⟨g, told, resets, handed, held, echoes, poses, sum, satisfies⟩ := h
  cases poses with
  | plain same =>
    subst same
    exact ⟨_, entry :: told, resets, handed, 0, echoes.cons entry, .plain rfl, sum,
      Satisfies.note agrees_tolerant.idle satisfies idle⟩
  | asking asks line begun anew books =>
    exact ⟨g, entry :: told, resets, handed, 1, echoes.cons entry,
      .asking asks line begun (anew.note (.inl idle)) (books.idle idle), sum, satisfies⟩

theorem Stands.rewind (h : s.Stands x old arrived awaiting) :
    { s with window := s.window.rewind }.Stands x old arrived awaiting := by
  obtain ⟨g, told, resets, handed, held, echoes, poses, sum, satisfies⟩ := h
  cases poses with
  | plain same =>
    subst same
    exact ⟨_, told, resets, handed, 0, echoes, .plain rfl, sum, satisfies.rewind⟩
  | asking asks line begun anew books =>
    exact ⟨g, told, resets, handed, 1, echoes,
      .asking asks line begun anew { books with window := books.window.rewind }, sum, satisfies⟩

private theorem asks_restarted (s : LinkState δ ω) : s.restarted.Asks := by
  change (s.control.clear.push _).waiting = _
  rw [ControlQueue.push_clear]

/-- A link that begins anew stands for what it was before. -/
theorem Stands.restarted (h : s.Stands x old arrived awaiting) :
    s.restarted.Stands x old arrived (if s.Asks then awaiting else awaiting + 1) := by
  obtain ⟨g, told, resets, handed, held, echoes, poses, sum, satisfies⟩ := h
  cases poses with
  | plain same =>
    subst same
    rw [if_neg (show ¬ s.Asks from satisfies.not_asks)]
    refine ⟨s.retold told, _, resets, handed, 1, (echoes.cons .cleared).cons .restarted,
      .asking s.asks_restarted rfl rfl .begun ?_, congrArg (· + 1) sum, satisfies⟩
    exact (satisfies.1.forget told).restart
  | asking asks line begun anew books =>
    rw [if_pos asks]
    refine ⟨g, _, resets, handed, 1, (echoes.void anew).cons .restarted,
      .asking s.asks_restarted line begun .begun ?_, sum, satisfies⟩
    exact (books.forget g.journal).restart

/-- A link that takes a request of its peer. -/
def asked (s : LinkState δ ω) : LinkState δ ω :=
  { s.clear with disconnected := false }.queue .reset resetResponse

theorem waiting_asked (s : LinkState δ ω) :
    s.asked.control.waiting = [⟨.reset, resetResponse⟩] := by
  change (s.control.clear.push _).waiting = _
  rw [ControlQueue.push_clear]

/-- At a request, the new response waits in place of all that has waited, also in place of older
responses. -/
theorem asked_agrees {front waiting : List Packet} {journal : List (Entry ω)} {handed dropped : Nat}
    (h : Agrees resets { x with way := .request :: rest } handed journal (front ++ waiting))
    (thinned : Thinned (front ++ waiting) front) (gives : dropped ≤ responses waiting) :
    dropped ≤ x.awaiting ∧
      Agrees resets { x with way := rest, awaiting := x.awaiting - dropped } handed
        (.cleared :: journal) (front ++ [.response]) := by
  have due := h.forth.due
  simp only [View.of, responses_append, requests_cons, if_true] at due
  have left : requests rest + responses (front ++ [.response]) ≤ x.awaiting - dropped := by
    rw [responses_append, show responses [.response] = 1 from rfl]
    omega
  exact ⟨by omega, Agree.await (h.request thinned) rfl left⟩

private theorem asked_stands {told : List (Entry ω)} {queue : List ControlFrame} {items : List Item}
    {waiting : List Packet} {handed dropped : Nat}
    (carries : Carries old arrived s.driver queue items waiting)
    (echoes : Echoes (.cleared :: told) (.cleared :: s.journal))
    (books : Books (.cleared :: told) s.window.clear 0 0 s.status.tx.dataFrames)
    (agrees : Agrees resets { x with way := .request :: rest } handed told
      (packets items ++ waiting))
    (gives : dropped ≤ responses waiting) :
    dropped ≤ x.awaiting ∧
      s.asked.Stands { x with way := rest, awaiting := x.awaiting - dropped } old arrived
        handed := by
  obtain ⟨fewer, awaited⟩ := asked_agrees agrees carries.thinned gives
  have kept : Carries old arrived s.driver s.asked.control.waiting items [.response] := by
    rw [waiting_asked]
    exact { carries with
      queue := rfl
      answers := by simpa using Packet.valid_response }
  exact ⟨fewer, s.asked.retold (.cleared :: told), .cleared :: told, resets, handed, 0, echoes,
    .plain rfl, rfl, books, items, [.response], kept, awaited⟩

/-- A link that takes a request stands for one that takes it. There will be no response to a request
that has waited itself, and a response that has waited gives way. -/
theorem Stands.asked {asks answers : Bool}
    (h : s.Stands { x with way := .request :: rest } old arrived awaiting)
    (asking : asks = true ↔ s.Asks) (answering : answers = true → s.Answers) :
    answers.toNat ≤ x.awaiting ∧
      s.asked.Stands { x with way := rest, awaiting := x.awaiting - answers.toNat } old arrived
        (awaiting - asks.toNat) := by
  obtain ⟨g, told, resets, handed, held, echoes, poses, sum, satisfies⟩ := h
  cases poses with
  | plain same =>
    subst same
    obtain rfl : asks = false := Bool.eq_false_iff.mpr fun true =>
      satisfies.not_asks (s := s.retold told) (asking.mp true)
    obtain rfl : awaiting = handed := sum
    obtain ⟨books, items, waiting, carries, agrees⟩ := satisfies
    refine asked_stands carries echoes.cleared books.clear agrees ?_
    cases answers with
    | false => exact Nat.zero_le _
    | true =>
      have among : Packet.response.frame ∈ waiting.map Packet.frame := by
        rw [← carries.queue]
        exact List.mem_map_of_mem (answering rfl)
      obtain ⟨packet, inside, same⟩ := List.mem_map.mp among
      rw [Packet.eq_response same] at inside
      exact List.count_pos_iff.mpr inside
  | asking waits line begun anew books =>
    obtain rfl : asks = true := asking.mpr waits
    obtain rfl : answers = false := Bool.eq_false_iff.mpr fun true =>
      waits.not_answers (answering true)
    obtain rfl : awaiting = handed + 1 := sum
    obtain ⟨-, items, waiting, carries, agrees⟩ := satisfies
    have none : s.status.tx.dataFrames = 0 := books.acknowledged.trans anew.counted_eq
    have forgotten : Books (.cleared :: .restarted :: g.journal) s.window.clear 0 0
        s.status.tx.dataFrames := by
      rw [none]
      exact books.forget (.restarted :: g.journal)
    have recounted : Agrees resets { x with way := .request :: rest } handed
        (.restarted :: g.journal) (packets items ++ waiting) := by
      have positive : 0 < resets := by
        rw [← agrees.epochs.2]
        simp only [requests_cons, if_true]
        omega
      rw [Agrees, View.of_restarted]
      exact Agree.recount agrees positive _
    exact asked_stands (carries.onLine line.symm begun.symm) (echoes.void anew).recount forgotten
      recounted (Nat.zero_le _)

variable [Driver δ]

/-- The request is handed over behind all that is on the line, and what was accepted meanwhile is
accepted after it began anew. -/
theorem Stands.hand (h : s.Stands x old arrived awaiting) (asks : s.Asks) :
    { s.hand Packet.request.image with
      status.tx.controlFrames := s.status.tx.controlFrames + 1
      control.waiting := [] }.Stands x old arrived awaiting := by
  obtain ⟨g, told, resets, handed, held, echoes, poses, sum, satisfies⟩ := h
  cases poses with
  | plain same =>
    subst same
    exact absurd asks satisfies.not_asks
  | asking _ line begun anew books =>
    obtain ⟨-, items, waiting, carries, agrees⟩ := satisfies
    have kept : Carries old arrived s.driver [] items [] :=
      carries.drain.onLine line.symm begun.symm
    have room : (present told).sends.length ≤ (present told).releases + FrameId.reach := by
      have length := books.window.length_eq
      have fits := books.window.fits
      have reaches := books.window.reaches
      simp only [outstanding, Packet.length_series, List.length_drop] at length
      omega
    have agree : Agrees (resets + 1) x (handed + 1) told (packets items ++ [.request]) :=
      agrees_tolerant.since anew (agrees.restart carries.thinned) room
    have sent : Carries old arrived (Driver.send s.driver Packet.request.image) []
        (items ++ [.packet .request]) [] :=
      kept.hand Packet.valid_request rfl fun _ => id
    refine ⟨_, .left (.handed Packet.request.image) :: told, resets + 1, handed + 1, 0,
      echoes.cons _, .plain rfl, sum, books.idle trivial, items ++ [Item.packet Packet.request], [],
      sent, ?_⟩
    rw [packets_append, List.append_nil]
    exact agrees_tolerant.idle agree trivial

private theorem Stands.flush_plain (h : s.Stands x old arrived awaiting) (quiet : ¬ s.Asks) :
    s.flush.Stands x old arrived awaiting := by
  obtain ⟨g, told, resets, handed, held, echoes, poses, sum, satisfies⟩ := h
  cases poses with
  | plain same =>
    subst same
    have overlooks : Overlooks fun s : LinkState (Line δ) ω => ((), s.flush) := fun s earlier =>
      congrArg (Prod.mk ()) (flush_above s earlier)
    obtain ⟨newer, written, retold⟩ := overlooks.retold s
    refine ⟨(s.retold told).flush, newer ++ told, resets, handed, 0, ?_,
      .plain (congrArg Prod.snd (retold told)), sum, satisfies.flush agrees_tolerant.toSteady⟩
    rw [show s.flush.journal = newer ++ s.journal from written]
    exact echoes.append newer
  | asking asks => exact absurd asks quiet

theorem Stands.flush (h : s.Stands x old arrived awaiting) :
    s.flush.Stands x old arrived awaiting := by
  by_cases asks : s.Asks
  · by_cases fits : controlSize ≤ s.space
    · rw [flush_cons asks fits]
      exact (h.hand asks).flush_plain nofun
    · have waits : s.control.waiting ≠ [] := asks ▸ List.cons_ne_nil _ _
      have full : s.Exhausted := .inl ⟨waits, Nat.lt_of_not_le fits⟩
      rw [full.flush_eq]
      exact h
  · exact h.flush_plain asks

/-- Whatever a link utters, it goes on standing for one that agrees with its peer. -/
theorem Stands.utterance (h : s.Stands x old arrived awaiting) (utterance : Utterance s s') :
    s'.Stands x old arrived awaiting := by
  cases utterance with
  | flush => exact h.flush
  | remark => exact h.note _ trivial
  | @accept metadata payload window some short fits room pushed =>
    obtain ⟨g, told, resets, handed, held, echoes, poses, sum, satisfies⟩ := h
    cases poses with
    | plain same =>
      subst same
      exact ⟨_, .accepted metadata payload :: told, resets, handed, 0, echoes.cons _, .plain rfl,
        sum, satisfies.accept some short fits room pushed agrees_tolerant.accept⟩
    | asking asks line begun anew books =>
      have valid := Packet.valid_data some short fits (clears told) (present told).sends.length
      exact ⟨g, .accepted metadata payload :: told, resets, handed, 1, echoes.cons _,
        .asking asks line begun (anew.note (.inr ⟨metadata, payload, rfl⟩))
          (books_push books valid room pushed).1, sum, satisfies⟩

theorem Stands.utters (h : s.Stands x old arrived awaiting) (utters : Utters s s') :
    s'.Stands x old arrived awaiting :=
  utters.keep (fun utterance h => h.utterance utterance) h

theorem Stands.raise (h : s.Stands x old arrived awaiting) (upper : Upper υ ω) (u : υ)
    (event : Event) : (s.raise upper u event).2.Stands x old arrived awaiting :=
  Stands.utters (h.note (.left (.raised event)) trivial) (utters_run _ _)

theorem Stands.checkTimeout (h : s.Stands x old arrived awaiting) (upper : Upper υ ω) (u : υ) :
    (s.checkTimeout upper u).2.Stands x old arrived awaiting := by
  rcases checkTimeout_cases upper u s with same | ⟨_, _, _, same⟩ | ⟨_, _, _, _, _, same⟩
  · rw [same]
    exact h
  · rw [same]
    exact h.rewind.flush
  · rw [same]
    have silent : { s with disconnected := true }.Stands x old arrived awaiting :=
      h.same rfl rfl rfl rfl rfl rfl rfl rfl
    exact (silent.raise upper u .disconnected).rewind.flush

end Standing

end LinkState

end FramedLink
