import Mathlib.Data.List.DropRight
import FramedLink.Proofs.Forgetting
import FramedLink.Proofs.Handing
import FramedLink.Proofs.TurnByTurn

/-! # When a request gives way

A link that begins anew asks its peer to do so too. As long as its driver has no space, this request
waits in the queue of control frames as the oldest of them, and the answers to what arrives come
behind it. It is the first that is handed over, unless there are more answers meanwhile than there
is room for: then it gives way to them.
-/

namespace FramedLink

open FramedLink.Frame FramedLink.Journal

variable {δ ω υ : Type}

/-! ## Answers in a queue without bounds -/

namespace ControlQueue

/-- What waits, with another frame, if there is room for it. -/
def join (waiting : List ControlFrame) (f : ControlFrame) : List ControlFrame :=
  if supersedes f waiting then waiting.dropLast ++ [f] else waiting ++ [f]

/-- The frames that are left of several, when each has superseded what it can. -/
def condensed (frames : List ControlFrame) : List ControlFrame := frames.foldl join []

theorem length_join_le (waiting : List ControlFrame) (f : ControlFrame) :
    waiting.length ≤ (join waiting f).length := by
  unfold join
  split
  · simp only [List.length_append, List.length_dropLast, List.length_singleton]
    omega
  · simp only [List.length_append, Nat.le_add_right]

theorem mem_join {waiting : List ControlFrame} {f g : ControlFrame} (among : g ∈ join waiting f) :
    g ∈ waiting ∨ g = f := by
  unfold join at among
  split at among
  · rcases List.mem_append.mp among with earlier | last
    · exact .inl (List.dropLast_subset waiting earlier)
    · exact .inr (List.mem_singleton.mp last)
  · rcases List.mem_append.mp among with earlier | last
    · exact .inl earlier
    · exact .inr (List.mem_singleton.mp last)

private theorem join_cons {first : ControlFrame} (stays : first.control ≠ .ackAll)
    (waiting : List ControlFrame) (f : ControlFrame) :
    join (first :: waiting) f = first :: join waiting f := by
  cases waiting with
  | nil => simp [join, supersedes, stays]
  | cons second rest =>
    have same : supersedes f (first :: second :: rest) = supersedes f (second :: rest) := by
      simp only [supersedes, List.getLast?_cons_cons]
    unfold join
    rw [same]
    split <;> rfl

/-- The newest frames wait, as many as there is room for. -/
def Newest (q : ControlQueue) (frames : List ControlFrame) : Prop :=
  q.waiting = frames.rtake q.capacity

theorem Newest.all {q : ControlQueue} {frames : List ControlFrame} (newest : q.Newest frames)
    (few : frames.length ≤ q.capacity) : q.waiting = frames := by
  rw [newest, List.rtake, Nat.sub_eq_zero_of_le few, List.drop_zero]

private theorem Newest.ne_nil {q : ControlQueue} {frames : List ControlFrame}
    (newest : q.Newest frames) (some : 0 < q.capacity) (nonempty : frames ≠ []) :
    q.waiting ≠ [] := by
  have length : q.waiting.length = frames.length - (frames.length - q.capacity) := by
    rw [newest, List.rtake, List.length_drop]
  have positive := List.length_pos_iff.mpr nonempty
  apply List.length_pos_iff.mp
  omega

private theorem supersedes_rtake (f : ControlFrame) (frames : List ControlFrame) (n : Nat) :
    supersedes f (frames.rtake (n + 1)) = supersedes f frames := by
  have same : (frames.rtake (n + 1)).getLast? = frames.getLast? := by
    rw [List.rtake, List.getLast?_drop]
    split
    · next none =>
      have empty : frames = [] := List.length_eq_zero_iff.mp (by omega)
      rw [empty]
      rfl
    · rfl
  rw [supersedes, same, supersedes]

/-- What a frame supersedes, and what gives way to it, is the same with and without bounds. -/
theorem Newest.push {q : ControlQueue} {frames : List ControlFrame} (newest : q.Newest frames)
    (some : 0 < q.capacity) (f : ControlFrame) : (q.push f).Newest (join frames f) := by
  obtain ⟨capacity, waiting⟩ := q
  obtain ⟨n, rfl⟩ : ∃ n, capacity = n + 1 := Nat.exists_eq_add_one.mpr some
  obtain rfl : waiting = frames.rtake (n + 1) := newest
  unfold Newest ControlQueue.push join
  simp only [supersedes_rtake]
  by_cases superseding : supersedes f frames = true
  · -- The newest frame is superseded, so there is one.
    simp only [if_pos superseding]
    rcases List.eq_nil_or_concat frames with rfl | ⟨front, last, rfl⟩
    · simp [supersedes] at superseding
    · simp only [List.concat_eq_append, List.rtake_concat_succ, List.dropLast_concat]
  · simp only [if_neg superseding]
    by_cases full : n + 1 ≤ (frames.rtake (n + 1)).length
    · have others : (frames.rtake (n + 1)).tail = frames.rtake n := by
        simp only [List.rtake, List.length_drop] at full
        have next : frames.length - (n + 1) + 1 = frames.length - n := by omega
        rw [List.rtake, List.tail_drop, next, List.rtake]
      simp only [if_pos full, others, List.rtake_concat_succ]
    · have all : frames.rtake (n + 1) = frames.rtake n := by
        simp only [List.rtake, List.length_drop] at full
        have none : frames.length - (n + 1) = frames.length - n := by omega
        rw [List.rtake, none, List.rtake]
      simp only [if_neg full]
      rw [all, List.rtake_concat_succ]

theorem condensed_append (frames : List ControlFrame) (f : ControlFrame) :
    condensed (frames ++ [f]) = join (condensed frames) f := List.foldl_append

private theorem mem_condensed {frames : List ControlFrame} {g : ControlFrame}
    (among : g ∈ condensed frames) : g ∈ frames := by
  induction frames using List.reverseRecOn with
  | nil => exact among
  | append_singleton front last ih =>
    rw [condensed_append] at among
    rcases mem_join among with earlier | rfl
    · exact List.mem_append_left _ (ih earlier)
    · exact List.mem_append_right _ List.mem_cons_self

end ControlQueue

/-! ## Turns -/

namespace Receiver.Turn

/-- The control frame with which the link answers what it takes. -/
def reply? : Turn → Option ControlFrame
  | take r happening => (r.take happening).2
  | restart => none

/-- The link is begun anew, by itself or because the peer asks for it. -/
def renews : Turn → Bool
  | take _ (.frame (.control f)) => f.control = .reset ∧ f.id = LinkState.resetRequest
  | take _ _ => false
  | restart => true

/-- Only to a request of the peer, the reply is about a new beginning. -/
theorem control_of_reply? {turn : Turn} (still : turn.renews = false) {f : ControlFrame}
    (reply : turn.reply? = some f) : f.control ≠ .reset := by
  cases turn with
  | restart => cases reply
  | take r happening =>
    cases happening with
    | lost =>
      cases reply
      intro renewal
      cases renewal
    | frame g =>
      cases g with
      | control g =>
        have other : ¬ (g.control = .reset ∧ g.id = LinkState.resetRequest) :=
          of_decide_eq_false still
        have none : (r.take (.frame (.control g))).2 = none := by rw [Receiver.take, if_neg other]
        rw [reply?, none] at reply
        cases reply
      | data g =>
        simp only [reply?, Receiver.take] at reply
        intro renewal
        split at reply <;> cases reply <;> cases renewal

/-- The answers to several turns that are left when each has superseded what it can. -/
def replies (turns : List Turn) : List ControlFrame :=
  ControlQueue.condensed (turns.filterMap reply?)

theorem replies_of_none {turn : Turn} (none : turn.reply? = none) (turns : List Turn) :
    replies (turns ++ [turn]) = replies turns := by
  rw [replies, List.filterMap_append, List.filterMap_cons_none none, List.filterMap_nil,
    List.append_nil, replies]

theorem replies_of_some {turn : Turn} {f : ControlFrame} (some : turn.reply? = some f)
    (turns : List Turn) :
    replies (turns ++ [turn]) = ControlQueue.join (replies turns) f := by
  rw [replies, List.filterMap_append, List.filterMap_cons_some some, List.filterMap_nil,
    ControlQueue.condensed_append, replies]

private theorem length_replies_le (turns : List Turn) (turn : Turn) :
    (replies turns).length ≤ (replies (turns ++ [turn])).length := by
  cases reply : turn.reply? with
  | none => rw [replies_of_none reply]
  | some f =>
    rw [replies_of_some reply]
    exact ControlQueue.length_join_le _ f

private theorem control_of_mem_replies {turns : List Turn}
    (still : ∀ turn ∈ turns, turn.renews = false) {f : ControlFrame} (among : f ∈ replies turns) :
    f.control ≠ .reset := by
  obtain ⟨turn, taken, reply⟩ := List.mem_filterMap.mp (ControlQueue.mem_condensed among)
  exact control_of_reply? (still turn taken) reply

end Receiver.Turn

/-! ## Requests that wait -/

/-- The request to begin anew. -/
def ControlFrame.request : ControlFrame := ⟨.reset, LinkState.resetRequest⟩

namespace LinkState

open ControlFrame Receiver.Turn

/-- Since the link began anew, it has taken these turns and handed over these strings of bytes. As
long as there are none, the newest of the request and the answers wait; and if there was room for
all answers until now, the request was handed over first. -/
structure Requests (room : Nat) (turns : List Receiver.Turn) (since : List Bytes)
    (s : LinkState δ ω) : Prop where
  capacity : s.control.capacity = room
  waits : since = [] → s.control.Newest (request :: replies turns)
  first : (replies turns).length < room → since = [] ∨ since.head? = some request.image

variable {room : Nat} {turns : List Receiver.Turn} {since : List Bytes} {s s' : LinkState δ ω}

theorem Requests.same (requests : Requests room turns since s) (control : s'.control = s.control) :
    Requests room turns since s' := by
  refine ⟨?_, fun none => ?_, requests.first⟩
  · rw [control]
    exact requests.capacity
  · rw [control]
    exact requests.waits none

theorem Requests.hand (requests : Requests room turns since s) (bytes : Bytes)
    (capacity : s'.control.capacity = s.control.capacity)
    (turn : since = [] → (replies turns).length < room → bytes = request.image) :
    Requests room turns (since ++ [bytes]) s' := by
  refine ⟨capacity.trans requests.capacity, fun none => ?_, fun few => .inr ?_⟩
  · cases List.append_eq_nil_iff.mp none |>.2
  · rcases requests.first few with none | first
    · rw [none, turn none few]
      rfl
    · rw [List.head?_append, first]
      rfl

theorem Requests.reply (requests : Requests room turns since s) (some : 0 < room)
    {turn : Receiver.Turn} (still : turn.renews = false)
    (control : s'.control = s.control.enter turn.reply?) :
    Requests room (turns ++ [turn]) since s' := by
  have first (few : (replies (turns ++ [turn])).length < room) :
      since = [] ∨ since.head? = .some request.image :=
    requests.first (Nat.lt_of_le_of_lt (length_replies_le turns turn) few)
  cases reply : turn.reply? with
  | none =>
    rw [reply] at control
    have same := requests.same control
    exact ⟨same.capacity, fun none => replies_of_none reply turns ▸ same.waits none, first⟩
  | some f =>
    have pushed : s'.control = s.control.push f := by
      rw [control, reply, ControlQueue.enter, if_neg (control_of_reply? still reply)]
    refine ⟨?_, fun none => ?_, first⟩
    · rw [pushed, ControlQueue.capacity_push]
      exact requests.capacity
    · have behind : ControlQueue.join (request :: replies turns) f =
          request :: replies (turns ++ [turn]) := by
        rw [ControlQueue.join_cons (by decide), replies_of_some reply]
      rw [pushed, ← behind]
      exact (requests.waits none).push (requests.capacity ▸ some) f

/-- What a link does of its own accord hands over the request first, if it still waits. -/
theorem Requests.emission (requests : Requests room turns since s) (some : 0 < room)
    [Driver δ] (emission : Emission s s') :
    ∃ more, handed s'.journal = handed s.journal ++ more ∧
      Requests room turns (since ++ more) s' := by
  cases emission with
  | @handControl f rest front space =>
    refine ⟨[f.image], rfl, requests.hand _ rfl fun none few => ?_⟩
    have waits := (requests.waits none).all (requests.capacity ▸ few)
    rw [front] at waits
    rw [(List.cons.inj waits).1]
  | @handData _ _ f _ nothing =>
    refine ⟨[f.image], rfl, requests.hand _ rfl fun none _ => ?_⟩
    have waits := (requests.waits none).ne_nil (requests.capacity ▸ some) (List.cons_ne_nil _ _)
    exact absurd nothing waits
  | accept =>
    refine ⟨[], (List.append_nil _).symm, ?_⟩
    rw [List.append_nil]
    exact requests.same rfl
  | remark =>
    refine ⟨[], (List.append_nil _).symm, ?_⟩
    rw [List.append_nil]
    exact requests.same rfl

/-- As long as nothing is handed over, the request waits exactly if there is room for it and all
answers. -/
theorem Requests.mem_iff (requests : Requests room turns [] s)
    (still : ∀ turn ∈ turns, turn.renews = false) :
    request ∈ s.control.waiting ↔ (replies turns).length < room := by
  have capacity := requests.capacity
  constructor
  · intro waits
    by_contra many
    have past : (replies turns).length + 1 - room = (replies turns).length - room + 1 := by omega
    rw [requests.waits rfl, capacity, List.rtake, List.length_cons, past, List.drop_succ_cons]
      at waits
    exact control_of_mem_replies still (List.mem_of_mem_drop waits) rfl
  · intro few
    rw [(requests.waits rfl).all (capacity ▸ few)]
    exact List.mem_cons_self

/-- Since these strings of bytes were handed over, unless the link has begun anew once more, the
request and what was handed over are as they should be. -/
def Requesting (room : Nat) (before : List Bytes) (turns : List Receiver.Turn)
    (s : LinkState δ ω) : Prop :=
  (∀ turn ∈ turns, turn.renews = false) →
    ∃ since, handed s.journal = before ++ since ∧ Requests room turns since s

theorem Requesting.same {before : List Bytes} (requesting : Requesting room before turns s)
    (control : s'.control = s.control) (journal : handed s'.journal = handed s.journal) :
    Requesting room before turns s' := by
  intro still
  obtain ⟨since, so, requests⟩ := requesting still
  exact ⟨since, journal.trans so, requests.same control⟩

theorem tracking_requesting [Driver δ] (some : 0 < room) (before : List Bytes) :
    Tracking (Requesting (δ := δ) (ω := ω) room before) where
  emission emission holds still := by
    obtain ⟨since, so, requests⟩ := holds still
    obtain ⟨more, then', kept⟩ := requests.emission some emission
    exact ⟨since ++ more, by rw [then', so, List.append_assoc], kept⟩
  reaction reaction holds still := by
    obtain ⟨earlier, last⟩ := List.forall_mem_append.mp still
    obtain ⟨since, so, requests⟩ := holds earlier
    exact ⟨since, reaction.handed_eq.trans so,
      requests.reply some (last _ List.mem_cons_self) reaction.replies.2⟩
  told call holds := holds.same rfl (handed_log _ call)
  counted _ holds := holds.same rfl rfl
  disconnected holds := holds.same rfl rfl
  rewind holds := holds.same rfl rfl
  restarted _ still := by
    have renewed := still .restart (List.mem_append_right _ List.mem_cons_self)
    cases renewed
  driver _ holds := holds.same rfl rfl

theorem Configured.requests {config : Config} (configured : s.Configured config)
    (some : 0 < config.controlFrames) :
    Requests config.controlFrames [] [] s.restarted where
  capacity := (ControlQueue.capacity_push _ _).trans configured.control
  waits _ := by
    have empty : s.control.clear.Newest [] := (List.rtake_nil _).symm
    exact empty.push (configured.control ▸ some) request
  first _ := .inl rfl

end LinkState

namespace Link

open LinkState Simulation Receiver.Turn

variable [Driver δ]

/-- After a link has begun anew, and until it does so again, by itself or because the peer asks for
it, whenever the link is met: As long as nothing is handed over, the queue has the newest of the
request and the answers to what was taken, so the request waits there exactly as long as there is
room for it and all of these answers. If there is room for them, the first frame that was handed
over, if there is one, is the request. -/
theorem request_first {config : Config} {driver : δ} {l : Link δ ω}
    (started : ofConfig config driver = .ok l) (upper : Upper υ ω) (u : υ)
    (earlier : List (Act δ)) {later : List (Act δ)} {turns : List Receiver.Turn}
    {t : LinkState δ ω} :
    let m := acts upper (u, l) earlier
    MeetsAfter upper (m.1, m.2.reset) later turns t → (∀ turn ∈ turns, turn.renews = false) →
      ∃ since, handed t.journal = handed m.2.state.journal ++ since ∧
        (since = [] →
          t.control.waiting =
              (ControlFrame.request :: replies turns).rtake config.controlFrames ∧
            (ControlFrame.request ∈ t.control.waiting ↔
              (replies turns).length < config.controlFrames)) ∧
        ((replies turns).length < config.controlFrames →
          since = [] ∨ since.head? = some ControlFrame.request.image) := by
  intro m meets still
  have valid := (ofConfig_eq_ok_iff.mp started).1
  have some : 0 < config.controlFrames := Nat.div_pos valid.controlStorage (by decide)
  have configured : m.2.state.Configured config :=
    ((configured_ofConfig started).acts earlier).state
  -- At the beginning, no turn has been taken.
  have begun : Requesting config.controlFrames (handed m.2.state.journal) []
      m.2.state.restarted :=
    fun _ => ⟨[], (List.append_nil _).symm, configured.requests some⟩
  have tracking := tracking_requesting (δ := δ) (ω := ω) some (handed m.2.state.journal)
  obtain ⟨since, so, requests⟩ :=
    tracking.meets meets (tracking.emits (emits_flush m.2.state.restarted) begun) still
  refine ⟨since, so, ?_, requests.first⟩
  rintro rfl
  exact ⟨(requests.waits rfl).trans (congrArg _ requests.capacity), requests.mem_iff still⟩

/-- The driver has no space when the link begins anew, a frame is delivered meanwhile, and then the
driver takes the request before the acknowledgement. -/
theorem request_first_delayed :
    let l : Link Wire Remark := ⟨.ofCapacity maxSize, .ofConfig {} { budget := some 0 }⟩
    let run : List (Act Wire) := [.receive (DataFrame.image ⟨0, 7, [5]⟩), .tune {}, .process]
    let turns := history silent ((), l.reset) run
    let t := (acts silent ((), l.reset) run).2.state
    ofConfig {} { budget := some 0 } = .ok l ∧ (∀ turn ∈ turns, turn.renews = false) ∧
      replies turns = [⟨.ackAll, 0⟩] ∧
      (handed t.journal).length = 2 ∧
        (handed t.journal).head? = some ControlFrame.request.image := by
  intro l run turns t
  have started : ofConfig {} { budget := some 0 } = .ok l :=
    ofConfig_eq_ok_iff.mpr ⟨Config.valid_default, rfl⟩
  have still : ∀ turn ∈ turns, turn.renews = false := by decide +kernel
  have replied : replies turns = [⟨.ackAll, 0⟩] := by decide +kernel
  have both : (handed t.journal).length = 2 := by decide +kernel
  have meets : MeetsAfter silent ((), l.reset) run turns t := .between run
  obtain ⟨since, so, -, first⟩ := request_first started silent () [] meets still
  have same : handed t.journal = since := so
  rw [← same] at first
  have few : (replies turns).length < Config.controlFrames {} := by
    rw [replied]
    decide
  exact ⟨started, still, replied, both,
    (first few).resolve_left (List.ne_nil_of_length_eq_add_one both)⟩

/-- With room for one frame, the request gives way to the acknowledgement of a frame that arrives
before the driver has space, and is never handed over. -/
theorem request_given_way :
    let config : Config := { controlStorage := 8 }
    let l : Link Wire Remark := ⟨.ofCapacity maxSize, .ofConfig config { budget := some 0 }⟩
    let run : List (Act Wire) := [.receive (DataFrame.image ⟨0, 7, [5]⟩), .tune {}, .process]
    ofConfig config { budget := some 0 } = .ok l ∧
      (∀ turn ∈ history silent ((), l.reset) run, turn.renews = false) ∧
      handed l.reset.state.journal = [] ∧
      l.reset.state.control.waiting = [ControlFrame.request] ∧
      handed (acts silent ((), l.reset) run).2.state.journal =
        [ControlFrame.image ⟨.ackAll, 0⟩] ∧
      (acts silent ((), l.reset) run).2.state.control.waiting = [] := by
  intro config l run
  refine ⟨ofConfig_eq_ok_iff.mpr ⟨Config.validate_eq_ok_iff.mp rfl, rfl⟩, ?_⟩
  decide +kernel

end Link

end FramedLink
