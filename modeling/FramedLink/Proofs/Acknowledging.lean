import FramedLink.Proofs.History
import FramedLink.Proofs.Pair
import FramedLink.Proofs.Reception
import FramedLink.Proofs.Transmission

/-! # What a link acknowledges

A link acknowledges a data frame when it accepts it, and once more when it comes again. The
acknowledgement waits in a queue, may be overtaken there, and goes out later; still it names a frame
that was delivered before, in the same epoch. There is one exception: as long as nothing was
delivered, half of the ids are taken for ids of frames that were, and are answered with the id that
comes before the first one.
-/

namespace FramedLink

open FramedLink.Frame FramedLink.Framing FramedLink.Journal

/-! ## What a journal vouches for -/

variable {δ ω υ : Type}

/-- A link has delivered what was accepted in each epoch, expects what is next, and every cumulative
acknowledgement that waits or was handed over names a frame delivered before. -/
structure Attests (history : History) (journal : List (Entry ω)) (expected : Nat)
    (waiting : List ControlFrame) : Prop where
  number : clears journal = history.number
  deliveries : ∀ n, (ofEpoch n journal).deliveries = (history.epoch n).contents
  numbered : history.present.Numbered
  expected : expected = history.present.next
  waiting : ∀ f ∈ waiting, f.control = .ackAll →
    history.present.Names history.present.accepted.length f.id
  handed : ∀ id earlier,
    .left (.handed (ControlFrame.image ⟨.ackAll, id⟩)) :: earlier <:+ journal → id ≤ maxId →
      (history.epoch (clears earlier)).Names (delivered earlier) id

namespace Attests

variable {history : History} {journal : List (Entry ω)} {expected : Nat}
  {waiting : List ControlFrame}

theorem nothing : Attests {} ([] : List (Entry ω)) 0 [] where
  number := rfl
  deliveries _ := rfl
  numbered := nofun
  expected := rfl
  waiting := nofun
  handed := by
    intro id earlier suffix
    cases List.suffix_nil.mp suffix

private theorem delivered_eq (h : Attests history journal expected waiting) :
    delivered journal = history.present.accepted.length := by
  rw [delivered, present, h.deliveries, h.number, Epoch.contents, List.length_map]
  rfl

theorem note (h : Attests history journal expected waiting) {entry : Entry ω}
    (number : clears (entry :: journal) = clears journal)
    (deliveries : ∀ n, (ofEpoch n (entry :: journal)).deliveries = (ofEpoch n journal).deliveries)
    (named : ∀ id, entry = .left (.handed (ControlFrame.image ⟨.ackAll, id⟩)) → id ≤ maxId →
      history.present.Names history.present.accepted.length id) :
    Attests history (entry :: journal) expected waiting where
  number := number.trans h.number
  deliveries n := (deliveries n).trans (h.deliveries n)
  numbered := h.numbered
  expected := h.expected
  waiting := h.waiting
  handed := by
    intro id earlier suffix small
    rcases List.suffix_cons_iff.mp suffix with newest | before
    · obtain ⟨rfl, rfl⟩ := List.cons.inj newest
      rw [h.delivered_eq, h.number]
      exact named id rfl small
    · exact h.handed id earlier before small

theorem idle (h : Attests history journal expected waiting) {entry : Entry ω} (idle : entry.Idle)
    (other : ∀ bytes, entry ≠ .left (.handed bytes)) :
    Attests history (entry :: journal) expected waiting := by
  refine h.note (clears_idle idle journal) (fun n => ?_) fun _ same => absurd same (other _)
  rw [ofEpoch_idle idle]

theorem hand (h : Attests history journal expected waiting) {bytes : Bytes}
    (named : ∀ id, bytes = ControlFrame.image ⟨.ackAll, id⟩ → id ≤ maxId →
      history.present.Names history.present.accepted.length id) :
    Attests history (.left (.handed bytes) :: journal) expected waiting := by
  refine h.note rfl (fun n => ?_) fun id same => named id (by cases same; rfl)
  rw [@ofEpoch_idle _ (.left (.handed bytes)) trivial]

theorem release (h : Attests history journal expected waiting) (count : Nat) :
    Attests history (.released count :: journal) expected waiting := by
  refine h.note rfl (fun n => ?_) nofun
  rw [ofEpoch_cons]
  split <;> rfl

theorem queue (h : Attests history journal expected waiting) {waiting' : List ControlFrame}
    {g : ControlFrame} (old : ∀ f ∈ waiting', f ∈ waiting ∨ f = g)
    (named : g.control = .ackAll → history.present.Names history.present.accepted.length g.id) :
    Attests history journal expected waiting' where
  number := h.number
  deliveries := h.deliveries
  numbered := h.numbered
  expected := h.expected
  waiting := by
    intro f among
    rcases old f among with before | rfl
    · exact h.waiting f before
    · exact named
  handed := h.handed

section Taking

variable (h : Attests history journal expected waiting) (f : DataFrame)
include h

theorem waiting_take {g : ControlFrame} (among : g ∈ waiting) (acknowledges : g.control = .ackAll) :
    (history.take (.data f)).present.Names
      (history.take (.data f)).present.accepted.length g.id := by
  have within := history.present.within_take f
  rw [History.present_take]
  exact (h.waiting g among acknowledges).mono within within.accepted.length_le

theorem handed_take {id : Nat} {earlier : List (Entry ω)}
    (suffix : .left (.handed (ControlFrame.image ⟨.ackAll, id⟩)) :: earlier <:+ journal)
    (small : id ≤ maxId) :
    ((history.take (.data f)).epoch (clears earlier)).Names (delivered earlier) id :=
  (h.handed id earlier suffix small).mono (history.within_take f _) (Nat.le_refl _)

end Taking

theorem deliver (h : Attests history journal expected waiting) {f : DataFrame}
    (next : f.id = history.present.next) :
    Attests (history.take (.data f)) (.left (.delivered f.metadata f.payload) :: journal)
      (FrameId.next expected) waiting where
  number := h.number
  deliveries := by
    intro n
    rw [ofEpoch_cons, h.number]
    by_cases same : n = history.number
    · rw [if_pos same.symm, same]
      show (ofEpoch history.number journal).deliveries ++ [(f.metadata, f.payload)] =
        (history.take (.data f)).present.contents
      rw [h.deliveries, History.present_take, Epoch.take_of_eq next, Epoch.contents,
        Epoch.contents, List.map_append]
      rfl
    · rw [if_neg (Ne.symm same), h.deliveries, History.epoch_take_of_ne history f same]
  numbered := by
    rw [History.present_take]
    exact h.numbered.take f
  expected := by
    rw [History.present_take, Epoch.take_of_eq next, h.expected]
    simp only [FrameId.next, FrameId.advance, Epoch.next, List.length_append,
      List.length_singleton, Nat.mod_add_mod]
  waiting _ := h.waiting_take f
  handed := by
    intro id earlier suffix small
    rcases List.suffix_cons_iff.mp suffix with newest | before
    · cases newest
    · exact h.handed_take f before small

theorem pass (h : Attests history journal expected waiting) {f : DataFrame}
    (other : f.id ≠ history.present.next) :
    Attests (history.take (.data f)) journal expected waiting where
  number := h.number
  deliveries := by
    intro n
    rw [h.deliveries]
    by_cases same : n = history.number
    · rw [same]
      show history.present.contents = (history.take (.data f)).present.contents
      rw [History.present_take, Epoch.contents, Epoch.contents, Epoch.accepted_take_of_ne other]
    · rw [History.epoch_take_of_ne history f same]
  numbered := by
    rw [History.present_take]
    exact h.numbered.take f
  expected := by
    rw [History.present_take, Epoch.next, Epoch.accepted_take_of_ne other]
    exact h.expected
  waiting _ := h.waiting_take f
  handed _ _ := h.handed_take f

private theorem accepted_close (h : Attests history journal expected waiting) :
    history.close.present.accepted = [] := by
  have later := h.deliveries (history.number + 1)
  rw [ofEpoch_of_clears_lt (h.number ▸ Nat.lt_succ_self _)] at later
  exact List.map_eq_nil_iff.mp later.symm

theorem clear (h : Attests history journal expected waiting) :
    Attests history.close (.cleared :: journal) 0 [] where
  number := congrArg (· + 1) h.number
  deliveries := by
    intro n
    rw [ofEpoch_cleared]
    exact h.deliveries n
  numbered := by
    intro place f here
    rw [h.accepted_close] at here
    cases here
  expected := by
    rw [Epoch.next, h.accepted_close]
    rfl
  waiting := nofun
  handed := by
    intro id earlier suffix small
    rcases List.suffix_cons_iff.mp suffix with newest | before
    · cases newest
    · exact h.handed id earlier before small

end Attests

namespace LinkState

/-- What was handed over can be traced, and every acknowledgement names a frame delivered before. -/
def Sound (history : History) (s : LinkState δ ω) : Prop :=
  s.Traces ∧ Attests history s.journal s.receiver.expected s.control.waiting

variable [Driver δ] {history : History} {s s' : LinkState δ ω}

theorem Sound.emission (h : Sound history s) (emission : Emission s s') : Sound history s' := by
  obtain ⟨traces, attests⟩ := h
  refine ⟨traces.emission emission, ?_⟩
  obtain ⟨numbered, tracing⟩ := traces
  cases emission with
  | @handControl f rest first =>
    have among : f ∈ s.control.waiting := first ▸ List.mem_cons_self
    have left : ∀ g ∈ rest, g ∈ s.control.waiting ∨ g = f := fun g later =>
      .inl (first ▸ List.mem_cons_of_mem f later)
    have named := attests.waiting f among
    refine (attests.hand fun id images small => ?_).queue left named
    have same : Frame.control f = .control ⟨.ackAll, id⟩ :=
      image_injective (numbered.waiting f among) small images
    cases same
    exact named rfl
  | @handData sent rest f now _ frames =>
    obtain ⟨frame, valid, image⟩ := tracing.image_eq (f := f) (by rw [frames]; simp)
    have going : Attests history (.going f.place :: s.journal) s.receiver.expected
        s.control.waiting := attests.idle trivial nofun
    refine going.hand fun id images small => ?_
    have same : Frame.data frame = .control ⟨.ackAll, id⟩ :=
      image_injective valid small (image.symm.trans images)
    cases same
  | accept =>
    refine attests.note rfl (fun n => ?_) nofun
    rw [ofEpoch_cons]
    split <;> rfl
  | remark => exact attests.idle trivial nofun

theorem Sound.emits (h : Sound history s) (emits : Emits s s') : Sound history s' :=
  emits.keep (fun emission sound => sound.emission emission) h

/-! ## What comes -/

omit [Driver δ] in
/-- A frame that is accepted is acknowledged and delivered at once. -/
theorem Reaction.sound {f : Frame} {calls : List Call} (reaction : Reaction s (.frame f) s' calls)
    (valid : f.Valid) (h : Sound history s) :
    (∃ metadata payload, calls = [.data metadata payload] ∧
        Sound (history.take f) (s'.log (.delivered metadata payload))) ∨
      (∀ call ∈ calls, ∃ event, call = .event event) ∧ Sound (history.take f) s' := by
  obtain ⟨traces, attests⟩ := h
  have traces' := traces.reaction reaction
  have small := traces.1.expected
  have other {f : DataFrame} (apart : FrameId.distance f.id s.receiver.expected ≠ 0) :
      f.id ≠ history.present.next :=
    Epoch.ne_next_of_distance (attests.expected ▸ apart)
  have kept {f : ControlFrame} (answer : f.control ≠ .reset) :
      history.take (.control f) = history :=
    if_neg fun both => answer both.1
  cases reaction with
  | @accept f next =>
    have same : f.id = s.receiver.expected :=
      (FrameId.distance_eq_zero_iff (Nat.lt_succ_of_le valid.1) small).mp next
    have delivered := attests.deliver (same.trans attests.expected)
    refine .inl ⟨f.metadata, f.payload, rfl, traces'.log (.data f.metadata f.payload), ?_⟩
    apply delivered.queue fun g among => ControlQueue.mem_push among
    intro _
    rw [History.present_take, Epoch.take_of_eq (same.trans attests.expected), ← same]
    left
    rw [List.take_length]
    exact List.mem_map_of_mem (List.mem_append_right _ List.mem_cons_self)
  | @again f behind =>
    have passed := attests.pass (other (f := f) (by omega))
    refine .inr ⟨nofun, traces', passed.queue (fun g among => ControlQueue.mem_push among) ?_⟩
    intro _
    show (history.take (.data f)).present.Names _ (FrameId.prev s.receiver.expected)
    rw [passed.expected, History.present_take]
    exact attests.numbered.names_behind valid.1 (attests.expected ▸ behind)
  | @ask f ahead =>
    have passed := attests.pass (other (f := f) (by omega))
    refine .inr ⟨nofun, traces', passed.queue (fun g among => ControlQueue.mem_push among) ?_⟩
    nofun
  | @pass f ahead => exact .inr ⟨nofun, traces', attests.pass (other (f := f) (by omega))⟩
  | keep answer =>
    rw [kept answer]
    exact .inr ⟨nofun, traces', attests⟩
  | release answer =>
    rw [kept answer]
    exact .inr ⟨nofun, traces', attests.release _⟩
  | resume answer =>
    rw [kept answer]
    exact .inr ⟨by simp, traces', attests.release _⟩
  | @request f reset asks =>
    have closed : history.take (.control f) = history.close := if_pos ⟨reset, asks⟩
    rw [closed]
    refine .inr ⟨by simp, traces',
      attests.clear.queue (fun g among => ControlQueue.mem_push among) ?_⟩
    nofun
  | @response f reset answers =>
    have same : history.take (.control f) = history := if_neg fun both => answers both.2
    rw [same]
    exact .inr ⟨by simp, traces', attests⟩

omit [Driver δ] in
private theorem Reaction.sound_lost {calls : List Call} (reaction : Reaction s .lost s' calls)
    (h : Sound history s) : calls = [] ∧ Sound history s' := by
  have traces := h.1.reaction reaction
  cases reaction
  refine ⟨rfl, traces, ?_⟩
  have expected := Receiver.expected_claimNack s.receiver
  have attests : Attests history s.journal s.receiver.claimNack.2.expected s.control.waiting := by
    rw [expected]
    exact h.2
  apply attests.queue fun g among => ControlQueue.mem_push among
  nofun

/-! ## Whatever happens -/

variable (upper : Upper υ ω)

theorem Sound.event (us : υ × LinkState δ ω) (h : Sound history us.2) (event : Event) :
    Sound history (tell upper us (.event event)).2 := by
  have told : Sound history (us.2.log (.raised event)) :=
    ⟨h.1.log (.event event), h.2.idle trivial nofun⟩
  exact told.emits (emits_tell upper us (.event event))

theorem Sound.events (us : υ × LinkState δ ω) (h : Sound history us.2) {calls : List Call}
    (events : ∀ call ∈ calls, ∃ event, call = .event event) :
    Sound history (tellAll upper us calls).2 := by
  induction calls generalizing us with
  | nil => exact h
  | cons call rest ih =>
    obtain ⟨⟨event, rfl⟩, others⟩ := List.forall_mem_cons.mp events
    exact ih _ (Sound.event upper us h event) others

theorem Sound.takeNotice (us : υ × LinkState δ ω) (h : Sound history us.2) (notice : Notice)
    (valid : ∀ f, notice.frame? = some f → f.Valid) :
    Sound (notice.frame?.toList.foldl History.take history)
      (LinkState.takeNotice upper us notice).2 := by
  obtain ⟨s', calls, reaction, same⟩ := reaction_takeNotice upper us.1 us.2 notice
  rw [show us = (us.1, us.2) from rfl, same]
  have counted : Sound history { us.2 with status := us.2.status.withCounters notice.counters } := h
  obtain ⟨counters, happening⟩ := notice
  cases happening with
  | frame f =>
    rcases reaction.sound (valid f rfl) counted with ⟨_, _, rfl, told⟩ | ⟨events, sound⟩
    · exact told.emits (emits_tell upper (us.1, s') (.data _ _))
    · exact Sound.events upper (us.1, s') sound events
  | lost =>
    obtain ⟨rfl, sound⟩ := reaction.sound_lost counted
    exact sound

theorem Sound.takeNotices (us : υ × LinkState δ ω) (h : Sound history us.2) (notices : List Notice)
    (valid : ∀ f ∈ notices.filterMap Notice.frame?, f.Valid) :
    Sound ((notices.filterMap Notice.frame?).foldl History.take history)
      (notices.foldl (LinkState.takeNotice upper) us).2 := by
  let Holds (history : History) (us : υ × LinkState δ ω) : Prop := Sound history us.2
  have one (history : History) (us : υ × LinkState δ ω) (notice : Notice)
      (valid : ∀ f, notice.frame? = some f → f.Valid) (holds : Holds history us) :
      Holds (notice.frame?.toList.foldl History.take history)
        (LinkState.takeNotice upper us notice) :=
    Sound.takeNotice upper us holds notice valid
  exact keep_notices one valid h

omit [Driver δ] in
theorem Sound.rewind (h : Sound history s) :
    Sound history { s with window := s.window.rewind } := ⟨h.1.rewind, h.2⟩

theorem Sound.checkTimeout (u : υ) (h : Sound history s) :
    Sound history (s.checkTimeout upper u).2 := by
  rcases checkTimeout_cases upper u s with same | ⟨_, _, _, same⟩ | ⟨_, _, _, _, _, same⟩
  · rw [same]
    exact h
  · rw [same]
    exact h.rewind.emits (emits_flush _)
  · rw [same]
    have told := Sound.event upper (u, { s with disconnected := true }) h .disconnected
    exact told.rewind.emits (emits_flush _)

omit [Driver δ] in
theorem Sound.restarted (h : Sound history s) : Sound history.close s.restarted := by
  refine ⟨h.1.restarted, ?_⟩
  have anew : Attests history.close (.restarted :: .cleared :: s.journal) 0 [] := by
    refine h.2.clear.note rfl (fun n => ?_) nofun
    rw [ofEpoch_restarted]
  apply anew.queue (g := ⟨.reset, resetRequest⟩) fun g among => ?_
  · nofun
  · exact ControlQueue.mem_push among

end LinkState

/-! ## Runs -/

namespace Link

variable [Driver δ] (upper : Upper υ ω)

/-- Between two acts, a link has come as far as its intake, and keeps the bytes about which nothing
is decided yet. -/
structure Follows (i : Intake) (l : Link δ ω) : Prop where
  settled : l.framer.Settled
  buffer : l.framer.buffer = (scan 0 i.bytes).2
  sound : LinkState.Sound i.history l.state

theorem Follows.act {i : Intake} (ul : υ × Link δ ω) (h : Follows i ul.2) (act : Act δ) :
    Follows (i.add act) (Link.act upper ul act).2 := by
  cases act with
  | send metadata payload =>
    exact ⟨h.settled, h.buffer, h.sound.emits (LinkState.emits_send _ metadata payload)⟩
  | receive chunk =>
    have read := Framer.reads_receive h.settled chunk
    have frames := Framer.frames_receive h.settled chunk
    rw [frames_scan] at frames
    have taken := LinkState.Sound.takeNotices upper (ul.1, ul.2.state) h.sound
      (ul.2.framer.receive chunk).2 fun f among => valid_of_mem_greedyDecode (frames ▸ among)
    refine ⟨read.settled, ?_, ?_⟩
    · show (ul.2.framer.receive chunk).1.buffer = (scan 0 (i.bytes ++ chunk)).2
      rw [read.buffer, h.buffer, scan_append i.bytes]
    · have whole : (i.add (.receive chunk : Act δ)).history =
          (greedyDecode (ul.2.framer.buffer ++ chunk)).foldl History.take i.history := by
        rw [h.buffer, Intake.history, Intake.history, ← List.foldl_append, ← greedyDecode_append]
        rfl
      rw [whole, ← frames]
      apply LinkState.Sound.emits _ (LinkState.emits_flush _)
      exact taken
  | process =>
    have flushed := h.sound.emits (LinkState.emits_flush ul.2.state)
    exact ⟨h.settled, h.buffer, flushed.checkTimeout upper ul.1⟩
  | reset =>
    refine ⟨⟨.inl rfl, ?_⟩, ?_, ?_⟩
    · exact (Framer.settled_reset ul.2.framer).position
    · exact Framer.buffer_reset ul.2.framer
    · have nothing : greedyDecode [] = [] := by
        rw [greedyDecode]
        rfl
      have anew : (i.add (.reset : Act δ)).history = i.history.close := by
        rw [Intake.history, Intake.add, nothing]
        rfl
      rw [anew]
      exact h.sound.restarted.emits (LinkState.emits_flush _)
  | tune driver => exact ⟨h.settled, h.buffer, h.sound⟩

theorem Follows.acts {i : Intake} (ul : υ × Link δ ω) (h : Follows i ul.2) (acts : List (Act δ)) :
    Follows (acts.foldl Intake.add i) (Link.acts upper ul acts).2 := by
  induction acts generalizing i ul with
  | nil => exact h
  | cons act rest ih => exact ih _ (Follows.act upper ul h act)

theorem follows_ofConfig {config : Config} {driver : δ} {l : Link δ ω}
    (started : ofConfig config driver = .ok l) : Follows {} l := by
  obtain ⟨-, rfl⟩ := ofConfig_eq_ok_iff.mp started
  have empty : ({} : Intake).history = {} := by
    rw [Intake.history, greedyDecode]
    rfl
  refine ⟨Framer.settled_ofCapacity _, rfl, LinkState.traces_ofConfig config driver, ?_⟩
  rw [empty]
  exact Attests.nothing

/-- What a link delivered in each epoch is what was accepted from the bytes it was given, and every
cumulative acknowledgement that it hands over names one of the frames delivered before in the same
epoch. It can name the last of all ids besides, if there was a frame that was taken for one that was
delivered before any was. -/
theorem acknowledges_acts {config : Config} {driver : δ} {l : Link δ ω}
    (started : ofConfig config driver = .ok l) (u : υ) (acts : List (Act δ)) :
    let s := (Link.acts upper (u, l) acts).2.state
    let history := (Intake.ofActs acts).history
    clears s.journal = history.number ∧
      (∀ n, (ofEpoch n s.journal).deliveries = (history.epoch n).contents) ∧
        ∀ id earlier,
          .left (.handed (ControlFrame.image ⟨.ackAll, id⟩)) :: earlier <:+ s.journal →
            id ≤ maxId →
              let epoch := history.epoch (clears earlier)
              id ∈ (epoch.accepted.take (delivered earlier)).map (·.id) ∨
                epoch.misread = true ∧ id = maxId := by
  intro s history
  have follows := Follows.acts upper (u, l) (follows_ofConfig started) acts
  have attests := follows.sound.2
  exact ⟨attests.number, attests.deliveries, attests.handed⟩

open Simulation

/-- The frame 1 comes twice; then the peer begins anew, and its first frame is acknowledged. -/
theorem acknowledges_again :
    let l : Link Wire Unit := ⟨.ofCapacity maxSize, .ofConfig {} {}⟩
    let frame (id : Nat) := DataFrame.image ⟨id, 7, [5]⟩
    let acts : List (Act Wire) := [.receive (frame 0 ++ frame 1), .receive (frame 1),
      .receive (ControlFrame.image ⟨.reset, 0⟩), .receive (frame 0)]
    let s := (Link.acts idleUpper ((), l) acts).2.state
    let history := (Intake.ofActs acts).history
    ofConfig {} {} = .ok l ∧
      handed s.journal = [ControlFrame.image ⟨.ackAll, 1⟩, ControlFrame.image ⟨.ackAll, 1⟩,
        ControlFrame.image ⟨.reset, 1⟩, ControlFrame.image ⟨.ackAll, 0⟩] ∧
      ∃ earlier, .left (.handed (ControlFrame.image ⟨.ackAll, 0⟩)) :: earlier <:+ s.journal ∧
        clears earlier = 1 ∧ delivered earlier = 1 ∧
          0 ∈ ((history.epoch 1).accepted.take 1).map (·.id) := by
  intro l frame acts s history
  have started : ofConfig {} {} = .ok l := ofConfig_eq_ok_iff.mpr ⟨Config.valid_default, rfl⟩
  have newest :
      s.journal = .left (.handed (ControlFrame.image ⟨.ackAll, 0⟩)) :: s.journal.tail := by
    decide +kernel
  have epoch : clears s.journal.tail = 1 := by decide +kernel
  have count : delivered s.journal.tail = 1 := by decide +kernel
  have suffix : .left (.handed (ControlFrame.image ⟨.ackAll, 0⟩)) :: s.journal.tail <:+ s.journal :=
    newest.symm ▸ List.suffix_refl _
  obtain ⟨-, -, named⟩ := acknowledges_acts idleUpper started () acts
  refine ⟨started, by decide +kernel, s.journal.tail, suffix, epoch, count, ?_⟩
  have here := named 0 s.journal.tail suffix (Nat.zero_le _)
  rw [epoch, count] at here
  exact here.resolve_right fun both => absurd both.2 (by decide)

/-- A link to which no frame was delivered acknowledges one. -/
theorem acknowledges_undelivered :
    let l : Link Wire Unit := ⟨.ofCapacity maxSize, .ofConfig {} {}⟩
    let s := (Link.acts idleUpper ((), l) [.receive (DataFrame.image ⟨2047, 7, [5]⟩)]).2.state
    ofConfig {} {} = .ok l ∧ handed s.journal = [ControlFrame.image ⟨.ackAll, 2047⟩] ∧
      clears s.journal = 0 ∧ (tally s.journal).deliveries = [] := by
  intro l s
  refine ⟨ofConfig_eq_ok_iff.mpr ⟨Config.valid_default, rfl⟩, ?_, ?_, ?_⟩
  · decide +kernel
  · decide +kernel
  · decide +kernel

end Link

end FramedLink
