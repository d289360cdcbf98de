import FramedLink.Proofs.Agreement

/-! # Links that agree

Whatever a link does, of its own accord or with what it takes from its line, it goes on agreeing
with its peer.
-/

namespace FramedLink

open FramedLink.Journal

variable {δ ω υ : Type}

/-- A side of which the journal and the packets are given agrees with the side `x`. -/
def Agrees (resets : Nat) (x : View) (awaiting : Nat) : Property ω := fun journal way =>
  Agree resets x (.of awaiting journal way)

variable {resets awaiting : Nat} {x : View} {journal : List (Entry ω)} {way way' : List Packet}

theorem agrees_tolerant : Tolerant (Agrees (ω := ω) resets x awaiting) where
  idle h idle := by
    rw [Agrees, View.of_idle _ _ _ idle]
    exact h
  hand h among := by
    obtain ⟨place, metadata, payload, rfl, here⟩ := Packet.mem_series among
    rw [List.getElem?_drop] at here
    exact Agree.hand h here (Nat.le_add_right _ _)
  accept h room := by
    rw [Agrees, View.of_accepted]
    exact Agree.accept h _ _ room

/-! ## What is taken -/

theorem Agrees.say (h : Agrees resets x awaiting journal way) (thinned : Thinned way way')
    (kind : Answer) :
    Agrees resets x awaiting journal
      (way' ++ [.answer kind (clears journal) (delivered journal)]) :=
  (Agree.thin h thinned).say kind

section Data

variable {epoch place metadata : Nat} {payload : Bytes} {rest : List Packet}
  (h : Agrees resets { x with way := .data epoch place metadata payload :: rest } 0 journal way)
include h

theorem Agrees.near : delivered journal ≤ place + FrameId.reach ∧
    place ≤ delivered journal + FrameId.reach := by
  have same := Agree.epoch_eq h rfl rfl rfl
  subst same
  refine ⟨h.forth.near List.mem_cons_self, ?_⟩
  have known := (h.forth.known _ List.mem_cons_self).1
  have inside := (List.getElem?_eq_some_iff.mp known).1
  have spread := h.forth.spread (clears journal)
  have releases := h.forth.releases (clears journal)
  simp only [View.of] at inside spread releases
  simp only [delivered, present]
  omega

theorem Agrees.takesData :
    LinkState.TakesData
      (Agrees resets { x with way := .data epoch place metadata payload :: rest } 0)
      (Agrees resets { x with way := rest } 0) place metadata payload journal := by
  have same := Agree.epoch_eq h rfl rfl rfl
  subst same
  exact {
    accept := fun {before after} holds thinned here => by
      subst here
      have known := (holds.forth.known _ List.mem_cons_self).1
      have ordered := List.pairwise_cons.mp holds.forth.ordered
      have passed := Agree.pass holds rfl (by simp)
      have told : Agrees resets { x with way := rest } 0
          (.left (.delivered metadata payload) :: journal) before := by
        rw [Agrees, View.of_delivered]
        exact passed.deliver known fun among => ordered.1 _ among rfl
      rw [← delivered_delivered journal metadata payload]
      exact Agrees.say told thinned .ack
    again := fun holds thinned _ => Agrees.say (Agree.pass holds rfl (by simp)) thinned .ack
    ask := fun holds thinned _ => Agrees.say (Agree.pass holds rfl (by simp)) thinned .nack
    pass := fun holds _ => Agree.pass holds rfl (by simp) }

end Data

section Answers

variable {kind : Answer} {epoch count : Nat} {rest : List Packet}
  (h : Agrees resets { x with way := .answer kind epoch count :: rest } 0 journal way)
include h

theorem Agrees.fresh : released journal ≤ count ∧ count ≤ (present journal).sends.length := by
  have same := Agree.epoch_eq h rfl rfl rfl
  subst same
  refine ⟨h.forth.fresh List.mem_cons_self, ?_⟩
  have known := (h.forth.known _ List.mem_cons_self).1
  exact Nat.le_trans known (h.back.delivers (clears journal)).length_le

theorem Agrees.takesAnswer :
    LinkState.TakesAnswer
      (Agrees resets { x with way := .answer kind epoch count :: rest } 0)
      (Agrees resets { x with way := rest } 0) count journal := by
  have same := Agree.epoch_eq h rfl rfl rfl
  subst same
  exact {
    release := fun holds more => by
      have known := (holds.forth.known _ List.mem_cons_self).1
      have ordered := List.pairwise_cons.mp holds.forth.ordered
      have passed := Agree.pass holds rfl (by simp)
      have sum : released journal + (count - released journal) = count := by omega
      rw [Agrees, View.of_released]
      refine passed.release ?_ fun among => ?_
      · change released journal + _ ≤ _
        rw [sum]
        exact known
      · change released journal + _ ≤ _
        rw [sum]
        exact ordered.1 _ among rfl
    keep := fun holds _ => Agree.pass holds rfl (by simp) }

end Answers

theorem Agrees.request {rest : List Packet}
    (h : Agrees resets { x with way := .request :: rest } awaiting journal way)
    (thinned : Thinned way way') :
    Agrees resets { x with way := rest } awaiting (.cleared :: journal) (way' ++ [.response]) := by
  rw [Agrees, View.of_cleared]
  exact (Agree.thin h thinned).request rfl (ofEpoch_of_clears_lt (Nat.lt_succ_self _))

/-- A link that begins anew says so behind all that is on its way. -/
theorem Agrees.restart (h : Agrees resets x awaiting journal way) (thinned : Thinned way way') :
    Agrees (resets + 1) x (awaiting + 1) (.restarted :: .cleared :: journal)
      (way' ++ [.request]) := by
  rw [Agrees, View.of_restarted, View.of_cleared]
  exact (Agree.thin h thinned).reset (ofEpoch_of_clears_lt (Nat.lt_succ_self _))

/-! ## Several packets -/

/-- Until the responses to its requests have come, the side takes nothing else. -/
def Patient : (awaiting : Nat) → List Packet → Prop
  | _, [] => True
  | awaiting, packet :: rest =>
    (packet ≠ .response → awaiting = 0) ∧
      Patient (if packet = .response then awaiting - 1 else awaiting) rest

namespace LinkState

variable [Driver δ] {old : List Item} {arrived : Nat} {s : LinkState (Line δ) ω}
  (upper : Upper υ ω) (u : υ)

def takeFrame (s : LinkState (Line δ) ω) : Frame → υ × LinkState (Line δ) ω
  | .data f => s.takeData upper u f
  | .control f => s.takeControl upper u f

theorem Satisfies.takeFrame {packet : Packet} {rest : List Packet}
    (h : s.Satisfies old arrived (Agrees resets { x with way := packet :: rest } awaiting))
    (patient : packet ≠ .response → awaiting = 0) :
    (s.takeFrame upper u packet.frame).2.Satisfies old arrived
      (Agrees resets { x with way := rest }
        (if packet = .response then awaiting - 1 else awaiting)) := by
  have holds := h.2.choose_spec.choose_spec.2
  have calm : Calm (Agrees (ω := ω) resets { x with way := rest } awaiting) :=
    agrees_tolerant.idle
  have keeps : upper.Keeps δ old arrived (Agrees resets { x with way := rest } awaiting) :=
    agrees_tolerant.keeps δ upper old arrived
  cases packet with
  | data epoch place metadata payload =>
    obtain rfl := patient (by simp)
    exact h.takeData keeps holds.near.1 holds.near.2 holds.takesData
  | answer kind epoch count =>
    obtain rfl := patient (by simp)
    exact h.takeAnswer keeps calm holds.fresh.1 holds.fresh.2 holds.takesAnswer kind
  | request =>
    exact h.takeRequest keeps calm fun holds thinned => holds.request thinned
  | response =>
    have responded : Calm (Agrees (ω := ω) resets { x with way := rest } (awaiting - 1)) :=
      agrees_tolerant.idle
    exact h.takeResponse (agrees_tolerant.keeps δ upper old arrived) responded
      fun holds => (Agree.response holds rfl).2

variable {upper u}

/-- What holds of a link before each frame that it takes, and is not disturbed by losses, leads to
what holds when no frame is left. -/
theorem Satisfies.takeNotices {I : List Packet → Property ω}
    (frame : ∀ {packet rest} {s : LinkState (Line δ) ω} {u : υ},
      s.Satisfies old arrived (I (packet :: rest)) →
        (s.takeFrame upper u packet.frame).2.Satisfies old arrived (I rest))
    (loss : ∀ {rest} {s : LinkState (Line δ) ω}, s.Satisfies old arrived (I rest) →
      s.takeLoss.Satisfies old arrived (I rest))
    {notices : List Framing.Notice} {taken : List Packet}
    (found : notices.filterMap Framing.Notice.frame? = taken.map Packet.frame)
    (h : s.Satisfies old arrived (I taken)) :
    (notices.foldl (takeNotice upper) (u, s)).2.Satisfies old arrived (I []) := by
  induction notices generalizing taken s u with
  | nil =>
    obtain rfl := List.map_eq_nil_iff.mp found.symm
    exact h
  | cons notice others ih =>
    rw [List.foldl_cons]
    -- The counters of the framer are no part of what holds of the link.
    have counted : { s with status := s.status.withCounters notice.counters }.Satisfies old arrived
        (I taken) := h
    obtain ⟨counters, happening⟩ := notice
    cases happening with
    | lost => exact ih found (loss counted)
    | frame f =>
      rw [List.filterMap_cons] at found
      cases taken with
      | nil => cases found
      | cons packet rest =>
        obtain ⟨rfl, later⟩ := List.cons.inj found
        have taken := frame (u := u) counted
        cases same : packet.frame <;> rw [same] at taken <;> exact ih later taken

variable (upper u) in
/-- With all frames that it takes, a link goes on agreeing with its peer. -/
theorem Satisfies.takeAgreeing {notices : List Framing.Notice} {taken rest : List Packet}
    (found : notices.filterMap Framing.Notice.frame? = taken.map Packet.frame)
    (h : s.Satisfies old arrived (Agrees resets { x with way := taken ++ rest } awaiting))
    (patient : Patient awaiting taken) :
    (notices.foldl (takeNotice upper) (u, s)).2.Satisfies old arrived
      (Agrees resets { x with way := rest } (awaiting - responses taken)) := by
  have due := h.2.choose_spec.choose_spec.2.back.due
  simp only [View.of, responses_append] at due
  generalize left : awaiting - responses taken = k
  obtain rfl : awaiting = k + responses taken := by omega
  clear left due
  have start : s.Satisfies old arrived fun journal way =>
      Patient (k + responses taken) taken ∧
        Agrees resets { x with way := taken ++ rest } (k + responses taken) journal way :=
    h.imp fun holds => ⟨patient, holds⟩
  refine Satisfies.imp (Satisfies.takeNotices (I := fun taken journal way =>
    Patient (k + responses taken) taken ∧
      Agrees resets { x with way := taken ++ rest } (k + responses taken) journal way)
    (fun {packet rest s u} h => ?_) (fun {rest s} h => ?_) found start) fun holds => holds.2
  · obtain ⟨patient, -⟩ := h.2.choose_spec.choose_spec.2
    have taken := Satisfies.takeFrame upper u (h.imp fun holds => holds.2) patient.1
    refine taken.imp fun holds => ?_
    have later := patient.2
    rw [responses_cons] at later holds
    split at later <;> simp_all
  · obtain ⟨patient, -⟩ := h.2.choose_spec.choose_spec.2
    exact Satisfies.takeLoss (h.imp fun holds => holds.2)
      fun holds thinned => ⟨patient, Agrees.say holds thinned .lost⟩

/-! ## Time -/

theorem Satisfies.checkTimeout {W : Property ω} (steady : Steady W)
    (keeps : upper.Keeps δ old arrived W) (h : s.Satisfies old arrived W) :
    (s.checkTimeout upper u).2.Satisfies old arrived W := by
  unfold LinkState.checkTimeout
  split
  · exact h
  · next oldest _ =>
    split
    · exact h
    · have told : (if s.config.retries ≤ oldest.attempts ∧ s.disconnected = false then
          { s with disconnected := true }.raise upper u .disconnected
          else (u, s)).2.Satisfies old arrived W := by
        split
        · have disconnected : { s with disconnected := true }.Satisfies old arrived W := h
          exact disconnected.raise keeps steady.idle .disconnected
        · exact h
      exact told.rewind.flush steady

end LinkState

end FramedLink
