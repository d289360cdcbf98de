import FramedLink.Proofs.Encoding
import FramedLink.Proofs.GreedyDecoding
import FramedLink.Proofs.Journal
import FramedLink.Proofs.Lasting
import FramedLink.Simulation.Application
import FramedLink.Simulation.Wire

/-! # What a link delivers of any stream

What a link delivers is decided by the frames in the bytes that it receives, and by nothing else: a
counter goes up with each data frame that has its value as id, and goes back at a request to begin
anew. Neither the chunks in which bytes arrive nor what is sent meanwhile has a say in it, and the
bytes need not come from another link.
-/

namespace FramedLink

open FramedLink.Frame FramedLink.Framing FramedLink.Journal

variable {δ ω υ : Type}

/-! ## The reference -/

/-- What the frames of a stream come to: the id that is expected next, and the metadata and the
payloads delivered. -/
structure Reception where
  expected : Nat := 0
  delivered : List (Nat × Bytes) := []
  deriving DecidableEq, Repr

namespace Reception

def take (r : Reception) : Frame → Reception
  | .data f =>
    if f.id = r.expected then
      ⟨(r.expected + 1) % FrameId.space, r.delivered ++ [(f.metadata, f.payload)]⟩
    else r
  | .control f => if f.control = .reset ∧ f.id = 0 then { r with expected := 0 } else r

def ofFrames (frames : List Frame) : Reception := frames.foldl take {}

def deliver (r : Reception) (frames : List (Nat × Bytes)) : Reception :=
  { r with delivered := r.delivered ++ frames }

@[simp] theorem deliver_nil (r : Reception) : r.deliver [] = r := by
  rw [deliver, List.append_nil]

@[simp] theorem deliver_deliver (r : Reception) (front back : List (Nat × Bytes)) :
    (r.deliver front).deliver back = r.deliver (front ++ back) := by
  simp only [deliver, List.append_assoc]

private theorem take_of_ne {r : Reception} {f : DataFrame} (h : f.id ≠ r.expected) :
    r.take (.data f) = r := by
  rw [take, if_neg h]

private theorem take_of_answer {r : Reception} {f : ControlFrame} (h : f.control ≠ .reset) :
    r.take (.control f) = r := by
  rw [take, if_neg fun both => h both.1]

theorem expected_take_lt {r : Reception} (h : r.expected < FrameId.space) (f : Frame) :
    (r.take f).expected < FrameId.space := by
  cases f with
  | data f =>
    rw [take]
    split
    · exact Nat.mod_lt _ (by decide)
    · exact h
  | control f =>
    rw [take]
    split
    · exact Nat.zero_lt_succ _
    · exact h

end Reception

/-! ## The frames of a stream -/

theorem valid_of_mem_greedyDecode {bytes : Bytes} {f : Frame} (among : f ∈ greedyDecode bytes) :
    f.Valid := by
  fun_induction greedyDecode bytes with
  | case1 => cases among
  | case2 bytes _ g read ih =>
    rcases List.mem_cons.mp among with rfl | later
    · exact (image_of_decode read).1
    · exact ih later
  | case3 => cases among
  | case4 _ _ _ _ _ ih => exact ih among

theorem greedyDecode_append (front back : Bytes) :
    greedyDecode (front ++ back) =
      greedyDecode front ++ greedyDecode ((scan 0 front).2 ++ back) := by
  rw [← frames_scan, ← frames_scan, ← frames_scan, scan_append, List.filterMap_append]

theorem keep_notices {ρ σ : Type} {take : ρ → Frame → ρ} {step : σ → Notice → σ}
    {P : ρ → σ → Prop}
    (one : ∀ r x notice, (∀ f, notice.frame? = some f → f.Valid) → P r x →
      P (notice.frame?.toList.foldl take r) (step x notice))
    {notices : List Notice} (valid : ∀ f ∈ notices.filterMap Notice.frame?, f.Valid) {r : ρ} {x : σ}
    (holds : P r x) :
    P ((notices.filterMap Notice.frame?).foldl take r) (notices.foldl step x) := by
  induction notices generalizing r x with
  | nil => exact holds
  | cons notice rest ih =>
    have first := one r x notice
      (fun f here => valid f (List.mem_filterMap.mpr ⟨notice, List.mem_cons_self, here⟩)) holds
    have others := ih (fun f among => by
      obtain ⟨other, inside, here⟩ := List.mem_filterMap.mp among
      exact valid f (List.mem_filterMap.mpr ⟨other, List.mem_cons_of_mem _ inside, here⟩)) first
    rw [List.filterMap_cons]
    cases found : notice.frame? with
    | none =>
      rw [found] at others
      exact others
    | some f =>
      rw [found] at others
      exact others

/-! ## What is told -/

/-- The delivery that is made by a call. -/
def Call.delivery? : Call → Option (Nat × Bytes)
  | event _ => none
  | data metadata payload => some (metadata, payload)

namespace LinkState

/-- How far a link has come with the frames it received. -/
def reception (s : LinkState δ ω) : Reception :=
  ⟨s.receiver.expected, (tally s.journal).deliveries⟩

private theorem reception_log (s : LinkState δ ω) (call : Call) :
    (s.log call.action).reception = s.reception.deliver call.delivery?.toList := by
  cases call with
  | event event => exact (Reception.deliver_nil _).symm
  | data metadata payload => rfl

/-! ## Reactions -/

/-- With each frame, a link comes as far as the reference does. -/
theorem Reaction.reception {s s' : LinkState δ ω} {f : Frame} {calls : List Call}
    (reaction : Reaction s (.frame f) s' calls) (small : s.receiver.expected < FrameId.space)
    (valid : f.Valid) :
    s'.reception.deliver (calls.filterMap Call.delivery?) = s.reception.take f := by
  have other {f : DataFrame} (h : FrameId.distance f.id s.receiver.expected ≠ 0) :
      f.id ≠ s.reception.expected := by
    intro same
    rw [same] at h
    exact h (FrameId.distance_self _)
  cases reaction with
  | @accept f next =>
    have same : f.id = s.reception.expected := by
      refine (FrameId.distance_eq_zero_iff ?_ small).mp next
      exact Nat.lt_succ_of_le valid.1
    rw [Reception.take, if_pos same]
    rfl
  | again behind =>
    rw [Reception.take_of_ne (other (by omega))]
    exact Reception.deliver_nil _
  | ask ahead =>
    rw [Reception.take_of_ne (other (by omega))]
    exact Reception.deliver_nil _
  | pass ahead =>
    rw [Reception.take_of_ne (other (by omega))]
    exact Reception.deliver_nil _
  | keep answer =>
    rw [Reception.take_of_answer answer]
    exact Reception.deliver_nil _
  | release answer =>
    rw [Reception.take_of_answer answer]
    exact Reception.deliver_nil _
  | resume answer =>
    rw [Reception.take_of_answer answer]
    exact Reception.deliver_nil _
  | request reset asks =>
    rw [Reception.take, if_pos ⟨reset, asks⟩]
    exact Reception.deliver_nil _
  | response reset answers =>
    rw [Reception.take, if_neg fun both => answers both.2]
    exact Reception.deliver_nil _

/-! ## Everything else -/

variable [Driver δ]

theorem reception_emits {s s' : LinkState δ ω} (emits : Emits s s') :
    s'.reception = s.reception := by
  refine emits.keep (P := fun s' => s'.reception = s.reception) ?_ rfl
  intro before after emission same
  rw [← same]
  cases emission <;> rfl

theorem reception_tellAll (upper : Upper υ ω) (us : υ × LinkState δ ω) (calls : List Call) :
    (tellAll upper us calls).2.reception =
      us.2.reception.deliver (calls.filterMap Call.delivery?) := by
  induction calls generalizing us with
  | nil => exact (Reception.deliver_nil _).symm
  | cons call rest ih =>
    have first := reception_emits (emits_tell upper us call)
    rw [reception_log] at first
    have later := ih (tell upper us call)
    rw [first, Reception.deliver_deliver] at later
    refine later.trans (congrArg _ ?_)
    rw [List.filterMap_cons]
    cases call.delivery? <;> rfl

private theorem reception_takeNotice (upper : Upper υ ω) (us : υ × LinkState δ ω) (notice : Notice)
    (small : us.2.receiver.expected < FrameId.space)
    (valid : ∀ f, notice.frame? = some f → f.Valid) :
    (takeNotice upper us notice).2.reception =
      notice.frame?.toList.foldl Reception.take us.2.reception := by
  obtain ⟨s', calls, reaction, same⟩ := reaction_takeNotice upper us.1 us.2 notice
  rw [show us = (us.1, us.2) from rfl, same, reception_tellAll]
  obtain ⟨counters, happening⟩ := notice
  cases happening with
  | frame f => exact reaction.reception small (valid f rfl)
  | lost =>
    cases reaction
    have expected : (us.2.receiver.claimNack).2.expected = us.2.receiver.expected :=
      Receiver.expected_claimNack _
    refine (Reception.deliver_nil _).trans ?_
    exact congrArg (Reception.mk · _) expected

private theorem reception_takeNotices (upper : Upper υ ω) (us : υ × LinkState δ ω)
    (notices : List Notice) (small : us.2.receiver.expected < FrameId.space)
    (valid : ∀ f ∈ notices.filterMap Notice.frame?, f.Valid) :
    (notices.foldl (takeNotice upper) us).2.reception =
      (notices.filterMap Notice.frame?).foldl Reception.take us.2.reception := by
  let Reached (r : Reception) (us : υ × LinkState δ ω) : Prop :=
    us.2.receiver.expected < FrameId.space ∧ us.2.reception = r
  have one (r : Reception) (us : υ × LinkState δ ω) (notice : Notice)
      (valid : ∀ f, notice.frame? = some f → f.Valid) (reached : Reached r us) :
      Reached (notice.frame?.toList.foldl Reception.take r) (takeNotice upper us notice) := by
    obtain ⟨small, rfl⟩ := reached
    have taken := reception_takeNotice upper us notice small valid
    refine ⟨?_, taken⟩
    change (takeNotice upper us notice).2.reception.expected < FrameId.space
    rw [taken]
    cases notice.frame? with
    | none => exact small
    | some f => exact Reception.expected_take_lt small f
  have reached : Reached us.2.reception us := ⟨small, rfl⟩
  exact (keep_notices one valid reached).2

private theorem reception_checkTimeout (upper : Upper υ ω) (u : υ) (s : LinkState δ ω) :
    (s.checkTimeout upper u).2.reception = s.reception := by
  rcases checkTimeout_cases upper u s with same | ⟨_, _, _, same⟩ | ⟨_, _, _, _, _, same⟩
  · rw [same]
  · rw [same]
    have flushed := reception_emits (emits_flush { s with window := s.window.rewind })
    exact flushed
  · rw [same]
    have told := reception_tellAll upper (u, { s with disconnected := true })
      [.event .disconnected]
    refine (reception_emits (emits_flush _)).trans (told.trans ?_)
    exact Reception.deliver_nil _

end LinkState

/-! ## Runs -/

/-- The bytes that are received with an act. -/
def Act.bytes : Act δ → Bytes
  | receive chunk => chunk
  | _ => []

/-- The bytes that are received in a run. -/
def received (acts : List (Act δ)) : Bytes := acts.flatMap Act.bytes

/-- With the next bytes of a stream a link comes as far as the reference does, and it keeps those
about which nothing is decided yet. -/
structure Link.Hears (l l' : Link δ ω) (bytes : Bytes) : Prop where
  settled : l'.framer.Settled
  buffer : l'.framer.buffer = (scan 0 (l.framer.buffer ++ bytes)).2
  reception : l'.state.reception =
    (greedyDecode (l.framer.buffer ++ bytes)).foldl Reception.take l.state.reception

namespace Link.Hears

variable {l l' l'' : Link δ ω}

theorem of_same (settled : l.framer.Settled) (framer : l'.framer = l.framer)
    (same : l'.state.reception = l.state.reception) : Hears l l' [] := by
  have nothing := scan_of_none settled.undecided
  refine ⟨framer ▸ settled, ?_, ?_⟩
  · rw [List.append_nil, nothing, framer]
  · rw [List.append_nil, ← frames_scan, nothing]
    exact same

theorem trans {bytes more : Bytes} (first : Hears l l' bytes) (second : Hears l' l'' more) :
    Hears l l'' (bytes ++ more) where
  settled := second.settled
  buffer := by
    rw [second.buffer, first.buffer, ← List.append_assoc, scan_append (l.framer.buffer ++ bytes)]
  reception := by
    rw [second.reception, first.reception, first.buffer, ← List.foldl_append,
      ← greedyDecode_append, List.append_assoc]

private theorem expected_lt {bytes : Bytes} (hears : Hears l l' bytes)
    (small : l.state.receiver.expected < FrameId.space) :
    l'.state.receiver.expected < FrameId.space := by
  change l'.state.reception.expected < FrameId.space
  rw [hears.reception]
  apply List.foldlRecOn (motive := fun r : Reception => r.expected < FrameId.space)
  · exact small
  · intro r holds f _
    exact Reception.expected_take_lt holds f

end Link.Hears

namespace Link

variable [Driver δ] (upper : Upper υ ω)

private theorem hears_receive {l : Link δ ω} (settled : l.framer.Settled)
    (small : l.state.receiver.expected < FrameId.space) (u : υ) (chunk : Bytes) :
    Hears l (l.receive upper u chunk).2 chunk := by
  have read := Framer.reads_receive settled chunk
  have frames := Framer.frames_receive settled chunk
  rw [frames_scan] at frames
  have taken := LinkState.reception_takeNotices upper (u, l.state) (l.framer.receive chunk).2 small
    (by
      intro f among
      rw [frames] at among
      exact valid_of_mem_greedyDecode among)
  rw [frames] at taken
  exact ⟨read.settled, read.buffer,
    (LinkState.reception_emits (LinkState.emits_flush _)).trans taken⟩

private theorem hears_act {ul : υ × Link δ ω} (settled : ul.2.framer.Settled)
    (small : ul.2.state.receiver.expected < FrameId.space) {act : Act δ} (kept : act ≠ .reset) :
    Hears ul.2 (Link.act upper ul act).2 act.bytes := by
  cases act with
  | send metadata payload =>
    exact .of_same settled rfl (LinkState.reception_emits (LinkState.emits_send _ _ _))
  | receive chunk => exact hears_receive upper settled small ul.1 chunk
  | process =>
    refine .of_same settled rfl ?_
    exact (LinkState.reception_checkTimeout upper _ _).trans
      (LinkState.reception_emits (LinkState.emits_flush _))
  | reset => exact absurd rfl kept
  | tune driver => exact .of_same settled rfl rfl

theorem hears_acts (ul : υ × Link δ ω) (settled : ul.2.framer.Settled)
    (small : ul.2.state.receiver.expected < FrameId.space) {acts : List (Act δ)}
    (kept : ∀ act ∈ acts, act ≠ .reset) :
    Hears ul.2 (Link.acts upper ul acts).2 (received acts) := by
  induction acts generalizing ul with
  | nil => exact .of_same settled rfl rfl
  | cons act rest ih =>
    have first := hears_act upper settled small (kept act List.mem_cons_self)
    have others := ih _ first.settled (first.expected_lt small) fun act among =>
      kept act (List.mem_cons_of_mem _ among)
    exact first.trans others

/-- What a new link delivers, and the id that it expects, are those of the reference: the frames are
decoded greedily from all the bytes that were received, whatever is sent and whenever time
passes. -/
theorem reception_acts {config : Config} {driver : δ} {l : Link δ ω}
    (started : ofConfig config driver = .ok l) (u : υ) {acts : List (Act δ)}
    (kept : ∀ act ∈ acts, act ≠ .reset) :
    let after := (Link.acts upper (u, l) acts).2.state
    let reference := Reception.ofFrames (greedyDecode (received acts))
    (tally after.journal).deliveries = reference.delivered ∧
      after.receiver.expected = reference.expected := by
  intro after reference
  obtain ⟨-, rfl⟩ := ofConfig_eq_ok_iff.mp started
  have small : 0 < FrameId.space := by decide
  have hears := hears_acts upper
    (u, ⟨.ofCapacity config.receiveStorage, .ofConfig config driver⟩)
    (Framer.settled_ofCapacity config.receiveStorage) small kept
  exact ⟨congrArg Reception.delivered hears.reception,
    congrArg Reception.expected hears.reception⟩

/-- A stream that no link would send, and a layer above that sends every payload back: the frame 1
comes too early and the frame 0 in two pieces, behind a byte of noise. A request to begin anew lets
the frame 0 be delivered again. -/
theorem reception_reordered :
    let frame (id : Nat) (payload : Bytes) := DataFrame.image ⟨id, 7, payload⟩
    let acts : List (Act Simulation.Wire) :=
      [.receive (frame 1 [4]), .send 9 [1], .receive (0xAA :: (frame 0 [5, 6]).take 9),
        .tune { now := 200 }, .process, .receive ((frame 0 [5, 6]).drop 9 ++ frame 1 [7]),
        .receive (ControlFrame.image ⟨.reset, 0⟩ ++ frame 2 [8] ++ frame 0 [9])]
    let l : Link Simulation.Wire Simulation.Remark := ⟨.ofCapacity maxSize, .ofConfig {} {}⟩
    Reception.ofFrames (greedyDecode (received acts)) =
        ⟨1, [(7, [5, 6]), (7, [7]), (7, [9])]⟩ ∧
      let after := (Link.acts Simulation.echoer ((), l) acts).2.state
      (tally after.journal).deliveries = [(7, [5, 6]), (7, [7]), (7, [9])] ∧
        after.receiver.expected = 1 := by
  intro frame acts l
  have started : ofConfig {} {} = .ok l := ofConfig_eq_ok_iff.mpr ⟨Config.valid_default, rfl⟩
  have reference : Reception.ofFrames (greedyDecode (received acts)) =
      ⟨1, [(7, [5, 6]), (7, [7]), (7, [9])]⟩ := by decide +kernel
  have kept : ∀ act ∈ acts, act ≠ .reset := by decide
  have same := reception_acts Simulation.echoer started () kept
  rw [reference] at same
  exact ⟨reference, same⟩

end Link

end FramedLink
