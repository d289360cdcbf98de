import FramedLink.Proofs.Satisfying

/-! # What a link satisfies after it has taken something

One law for each thing a link can take: a data frame at a known place, an answer to a known number
of frames, a request or a response, a loss. Each says what has to be shown of a property so that
the link satisfies it afterwards, whatever the layer above does meanwhile.
-/

namespace FramedLink

open FramedLink.Frame FramedLink.Journal

variable {δ ω υ α : Type}

/-- How often the peer is asked to begin anew. -/
def requests (way : List Packet) : Nat := way.count .request

/-- How often the peer is told that the link has begun anew. -/
def responses (way : List Packet) : Nat := way.count .response

section Counting

variable (packet : Packet) (way way' : List Packet)

@[simp] theorem requests_cons :
    requests (packet :: way) = requests way + if packet = .request then 1 else 0 := by
  simp [requests, List.count_cons]

@[simp] theorem responses_cons :
    responses (packet :: way) = responses way + if packet = .response then 1 else 0 := by
  simp [responses, List.count_cons]

@[simp] theorem requests_append : requests (way ++ way') = requests way + requests way' :=
  List.count_append

@[simp] theorem responses_append : responses (way ++ way') = responses way + responses way' :=
  List.count_append

@[simp] theorem requests_nil : requests [] = 0 := rfl

@[simp] theorem responses_nil : responses [] = 0 := rfl

end Counting

/-- Some packets gave way to newer ones, but no request did. -/
structure Thinned (way way' : List Packet) : Prop where
  sublist : way'.Sublist way
  asking : requests way' = requests way

theorem Thinned.refl (way : List Packet) : Thinned way way := ⟨.refl _, rfl⟩

theorem Thinned.append {front back back' : List Packet} (sublist : back'.Sublist back)
    (none : ∀ packet ∈ back, packet ≠ .request) : Thinned (front ++ back) (front ++ back') where
  sublist := List.Sublist.append_left sublist front
  asking := by
    have fewer : back'.count .request = 0 :=
      List.count_eq_zero.mpr fun among => none _ (sublist.subset among) rfl
    have nothing : back.count .request = 0 :=
      List.count_eq_zero.mpr fun among => none _ among rfl
    simp only [requests, List.count_append, fewer, nothing]

/-! ## The queue -/

private theorem ControlQueue.waiting_push (q : ControlQueue) (f : ControlFrame) :
    ∃ kept, kept.Sublist q.waiting ∧ (q.push f).waiting = kept ++ [f] := by
  unfold push
  split
  · exact ⟨_, List.dropLast_sublist _, rfl⟩
  · split
    · exact ⟨_, List.tail_sublist _, rfl⟩
    · exact ⟨_, .refl _, rfl⟩

section Carrying

variable {old : List Item} {arrived : Nat} {line : Line δ} {items : List Item}
  {waiting : List Packet} {queue : ControlQueue}

theorem Carries.onLine {queue : List ControlFrame}
    (h : Carries old arrived line queue items waiting) {line' : Line δ}
    (same : line'.items = line.items) (begun : line'.arrived = line.arrived) :
    Carries old arrived line' queue items waiting :=
  { h with
    carried := same.trans h.carried
    same := begun.trans h.same }

theorem Carries.drain {queue : List ControlFrame}
    (h : Carries old arrived line queue items waiting) : Carries old arrived line [] items [] :=
  { h with
    queue := rfl
    answers := nofun }

theorem Carries.thinned {queue : List ControlFrame}
    (h : Carries old arrived line queue items waiting) :
    Thinned (packets items ++ waiting) (packets items) := by
  have all : Thinned (packets items ++ waiting) (packets items ++ []) :=
    .append (List.nil_sublist waiting) fun packet among => (h.answers packet among).2
  rwa [List.append_nil] at all

/-- A control frame joins those that wait, and some of them may give way. -/
theorem Carries.push (h : Carries old arrived line queue.waiting items waiting)
    {packet : Packet} (valid : packet.Valid) (noRequest : packet ≠ .request) {f : ControlFrame}
    (same : Frame.control f = packet.frame) :
    ∃ way, Thinned (packets items ++ waiting) way ∧
      ∃ waiting', Carries old arrived line (queue.push f).waiting items waiting' ∧
        packets items ++ waiting' = way ++ [packet] := by
  obtain ⟨kept, sublist, pushed⟩ := queue.waiting_push f
  obtain ⟨others, fewer, kept'⟩ := List.sublist_map_iff.mp (h.queue ▸ sublist.map Frame.control)
  refine ⟨packets items ++ others, .append fewer fun packet among => (h.answers packet among).2,
    others ++ [packet], ⟨h.carried, h.behind, h.same, ?_, h.valid, fun other among => ?_⟩,
    by rw [List.append_assoc]⟩
  · rw [pushed, List.map_append, List.map_append, kept', List.map_singleton, same,
      List.map_singleton]
  · rcases List.mem_append.mp among with before | last
    · exact h.answers other (fewer.subset before)
    · rw [List.mem_singleton.mp last]
      exact ⟨valid, noRequest⟩

end Carrying

/-! ## The books -/

namespace Books

variable {journal : List (Entry ω)} {window : SendWindow} {nextId expected acknowledged : Nat}
  (h : Books journal window nextId expected acknowledged)
include h

theorem deliver (metadata : Nat) (payload : Bytes) :
    Books (.left (.delivered metadata payload) :: journal) window nextId (FrameId.next expected)
      acknowledged := by
  have same : outstanding (.left (.delivered metadata payload) :: journal) =
      outstanding journal := by
    simp only [outstanding, present_delivered, Tally.deliver, clears]
  exact {
    window := same ▸ h.window
    released := by
      rw [present_delivered]
      exact h.released
    nextId := by
      rw [present_delivered]
      exact h.nextId
    expected := by
      rw [present_delivered, h.expected]
      simp only [Tally.deliver, FrameId.next, FrameId.advance, List.length_append,
        List.length_singleton, Nat.mod_add_mod]
    acknowledged := h.acknowledged }

theorem release {window' : SendWindow} {count : Nat}
    (holds : window'.Holds ((outstanding journal).drop count))
    (most : (present journal).releases + count ≤ (present journal).sends.length) :
    Books (.released count :: journal) window' nextId expected (acknowledged + count) := by
  have fewer : outstanding (.released count :: journal) =
      (outstanding journal).drop count := by
    simp only [outstanding, present_released, Tally.release, clears, Packet.drop_series,
      List.drop_drop]
  exact {
    window := fewer ▸ holds
    released := by
      rw [present_released]
      exact most
    nextId := by
      rw [present_released]
      exact h.nextId
    expected := by
      rw [present_released]
      exact h.expected
    acknowledged := by
      rw [h.acknowledged]
      rfl }

/-- A window that is cleared fits every journal in which nothing has happened since. -/
theorem forget (before : List (Entry ω)) :
    Books (.cleared :: before) window.clear 0 0 (counted before) := by
  have none : outstanding (.cleared :: before) = [] := by
    simp only [outstanding, present_cleared, List.drop_nil, Packet.series]
  exact {
    window := by
      rw [none]
      exact ⟨.nil, .nil, Nat.zero_le _, h.window.reaches,
        (SendWindow.blockSize_releaseAll _ _).trans h.window.blocks⟩
    released := by
      rw [present_cleared]
      exact Nat.zero_le _
    nextId := by
      rw [present_cleared]
      rfl
    expected := by
      rw [present_cleared]
      rfl
    acknowledged := rfl }

theorem clear : Books (.cleared :: journal) window.clear 0 0 acknowledged := by
  rw [h.acknowledged]
  exact h.forget journal

end Books

/-! ## The layer above -/

/-- Whatever the layer above is told, what it does keeps a property of the link. -/
structure Upper.Keeps (δ : Type) [Driver δ] (upper : Upper υ ω) (old : List Item) (arrived : Nat)
    (W : Property ω) : Prop where
  onEvent : ∀ u event (s : LinkState (Line δ) ω), s.Satisfies old arrived W →
    (s.run (upper.onEvent u event)).2.Satisfies old arrived W
  onData : ∀ u metadata payload (s : LinkState (Line δ) ω), s.Satisfies old arrived W →
    (s.run (upper.onData u metadata payload)).2.Satisfies old arrived W

theorem Tolerant.keeps (δ : Type) [Driver δ] {W : Property ω} (tolerant : Tolerant W)
    (upper : Upper υ ω) (old : List Item) (arrived : Nat) : upper.Keeps δ old arrived W where
  onEvent u event _ h := h.run tolerant (upper.onEvent u event)
  onData u metadata payload _ h := h.run tolerant (upper.onData u metadata payload)

namespace LinkState

variable {old : List Item} {arrived : Nat} {W W' : Property ω} {s : LinkState (Line δ) ω}
  {upper : Upper υ ω} {u : υ}

theorem Satisfies.raise [Driver δ] (keeps : upper.Keeps δ old arrived W) (calm : Calm W)
    (h : s.Satisfies old arrived W) (event : Event) :
    (s.raise upper u event).2.Satisfies old arrived W := by
  obtain ⟨books, items, waiting, carries, holds⟩ := h
  exact keeps.onEvent u event (s.log (.raised event))
    ⟨books.idle trivial, items, waiting, carries, calm holds trivial⟩

theorem Satisfies.queue (h : s.Satisfies old arrived W) {packet : Packet} (valid : packet.Valid)
    (noRequest : packet ≠ .request) {control : Control} {id : Nat}
    (same : Frame.control ⟨control, id⟩ = packet.frame)
    (becomes : ∀ {way way'}, W s.journal way → Thinned way way' →
      W' s.journal (way' ++ [packet])) :
    (s.queue control id).Satisfies old arrived W' := by
  obtain ⟨books, items, waiting, carries, holds⟩ := h
  obtain ⟨way, thinned, waiting', carries', is⟩ := carries.push valid noRequest same
  exact ⟨books, items, waiting', carries', is ▸ becomes holds thinned⟩

theorem Satisfies.takeLoss (h : s.Satisfies old arrived W)
    (becomes : ∀ {way way'}, W s.journal way → Thinned way way' →
      W' s.journal (way' ++ [.answer .lost (clears s.journal) (delivered s.journal)])) :
    s.takeLoss.Satisfies old arrived W' := by
  have same := s.receiver.expected_claimNack
  have claimed : { s with receiver := s.receiver.claimNack.2 }.Satisfies old arrived W :=
    ⟨same ▸ h.1, h.2⟩
  refine claimed.queue
    (Packet.valid_answer .lost (clears s.journal) (delivered s.journal)) (by simp) ?_
    becomes
  rw [same, h.1.expected]
  rfl

/-! ## Data frames -/

/-- What a property becomes when a data frame at a place is taken. -/
structure TakesData (W W' : Property ω) (place metadata : Nat) (payload : Bytes)
    (journal : List (Entry ω)) : Prop where
  accept : ∀ {way way'}, W journal way → Thinned way way' → place = delivered journal →
    W' (.left (.delivered metadata payload) :: journal)
      (way' ++ [.answer .ack (clears journal) (delivered journal + 1)])
  again : ∀ {way way'}, W journal way → Thinned way way' → place < delivered journal →
    W' journal (way' ++ [.answer .ack (clears journal) (delivered journal)])
  ask : ∀ {way way'}, W journal way → Thinned way way' → delivered journal < place →
    W' journal (way' ++ [.answer .nack (clears journal) (delivered journal)])
  pass : ∀ {way}, W journal way → delivered journal < place → W' journal way

private theorem prev_succ (n : Nat) : FrameId.prev (n + 1) = n % FrameId.space := by
  simp only [FrameId.prev, FrameId.advance, FrameId.space]
  omega

private theorem prev_mod (n : Nat) : FrameId.prev (n % FrameId.space) = FrameId.prev n := by
  simp only [FrameId.prev, FrameId.advance, Nat.mod_add_mod]

theorem Satisfies.takeData [Driver δ] {place metadata : Nat} {payload : Bytes}
    (keeps : upper.Keeps δ old arrived W') (h : s.Satisfies old arrived W)
    (behind : delivered s.journal ≤ place + FrameId.reach)
    (before : place ≤ delivered s.journal + FrameId.reach)
    (takes : TakesData W W' place metadata payload s.journal) :
    (s.takeData upper u ⟨place % FrameId.space, metadata, payload⟩).2.Satisfies old arrived W' := by
  have expected := h.1.expected
  have ahead : FrameId.distance (place % FrameId.space) s.receiver.expected =
      (place : Int) - delivered s.journal := by
    refine FrameId.distance_eq (by simp) (by rw [expected]; simp) ?_ ?_ <;>
      simp only [FrameId.reach] at * <;> omega
  unfold LinkState.takeData Receiver.classify
  simp only [ahead]
  -- Within reach, the distance of the ids is that of the places.
  obtain here | early | late : place = delivered s.journal ∨ place < delivered s.journal ∨
      delivered s.journal < place := by omega
  · rw [if_pos (by omega)]
    obtain ⟨books, items, waiting, carries, holds⟩ := h
    obtain ⟨way, thinned, waiting', carries', is⟩ :=
      carries.push (Packet.valid_answer .ack (clears s.journal) (delivered s.journal + 1))
        (by simp) (f := ⟨.ackAll, s.receiver.expected⟩) (by
          rw [expected, ← prev_succ]
          rfl)
    refine keeps.onData u metadata payload _
      ⟨books.deliver metadata payload, items, waiting', carries', ?_⟩
    rw [is]
    exact takes.accept holds thinned here
  · rw [if_neg (by omega), if_pos (by omega)]
    refine h.queue (Packet.valid_answer .ack (clears s.journal) (delivered s.journal))
      (by simp) ?_ fun holds thinned => takes.again holds thinned early
    rw [Receiver.lastDelivered, expected, prev_mod]
    rfl
  · rw [if_neg (by omega), if_neg (by omega)]
    by_cases within : (place : Int) - delivered s.journal ≤ s.receiver.window
    · simp only [if_pos within]
      have same := s.receiver.expected_claimNack
      have claimed : { s with
          receiver := s.receiver.claimNack.2
          status.rx.idErrors := s.status.rx.idErrors + 1 }.Satisfies old arrived W :=
        ⟨same ▸ h.1, h.2⟩
      split
      · refine claimed.queue
          (Packet.valid_answer .nack (clears s.journal) (delivered s.journal))
          (by simp) ?_ fun holds thinned => takes.ask holds thinned late
        rw [same, expected]
        rfl
      · obtain ⟨books, items, waiting, carries, holds⟩ := claimed
        exact ⟨books, items, waiting, carries, takes.pass holds late⟩
    · simp only [if_neg within]
      obtain ⟨books, items, waiting, carries, holds⟩ := h
      exact ⟨books, items, waiting, carries, takes.pass holds late⟩

/-! ## Answers -/

/-- What a property becomes when an answer to `count` frames is taken. -/
structure TakesAnswer (W W' : Property ω) (count : Nat) (journal : List (Entry ω)) : Prop where
  release : ∀ {way}, W journal way → released journal < count →
    W' (.released (count - released journal) :: journal) way
  keep : ∀ {way}, W journal way → count = released journal → W' journal way

variable [Driver δ] {count : Nat}

theorem Satisfies.acknowledge (keeps : upper.Keeps δ old arrived W') (calm : Calm W')
    (h : s.Satisfies old arrived W) (least : released s.journal ≤ count)
    (most : count ≤ (present s.journal).sends.length)
    (takes : TakesAnswer W W' count s.journal) {window : SendWindow}
    (holds : window.Holds ((outstanding s.journal).drop (count - released s.journal))) :
    ({ s with window }.acknowledge upper u (count - released s.journal)).2.Satisfies
      old arrived W' := by
  obtain ⟨books, items, waiting, carries, way⟩ := h
  unfold LinkState.acknowledge
  split
  · next none =>
    rw [none, List.drop_zero] at holds
    exact ⟨{ books with window := holds }, items, waiting, carries, takes.keep way (by omega)⟩
  · next some =>
    have after : ({ s with
        window
        status.tx.dataFrames :=
          s.status.tx.dataFrames + (count - released s.journal) }.note
        (.released (count - released s.journal))).Satisfies old arrived W' :=
      ⟨books.release holds (by change released s.journal + _ ≤ _; omega), items, waiting, carries,
        takes.release way (by omega)⟩
    dsimp only [LinkState.note] at after ⊢
    split
    · refine Satisfies.raise keeps calm ?_ .connected
      exact after
    · exact after

/-- An answer to `count` frames releases those of them that are not released. -/
theorem Satisfies.takeAnswer (keeps : upper.Keeps δ old arrived W') (calm : Calm W')
    (h : s.Satisfies old arrived W) (least : released s.journal ≤ count)
    (most : count ≤ (present s.journal).sends.length)
    (takes : TakesAnswer W W' count s.journal) (kind : Answer) :
    (s.takeControl upper u (kind.toFrame count)).2.Satisfies old arrived W' := by
  have window := h.1.window
  have within : count ≤ released s.journal +
      ((present s.journal).sends.drop (released s.journal)).length := by
    rw [List.length_drop]
    omega
  have asked : (s.goBack upper u (count % FrameId.space)).2.Satisfies old arrived W' := by
    unfold goBack
    by_cases empty : s.window.frames = []
    · have length := window.length_eq
      simp only [SendWindow.length, empty, outstanding, Packet.length_series,
        List.length_nil, List.length_drop] at length
      change 0 = (present s.journal).sends.length - released s.journal at length
      have unknown : s.window.nack (count % FrameId.space) = none := by
        rw [SendWindow.nack, empty]
        rfl
      rw [unknown]
      obtain ⟨books, items, waiting, carries, way⟩ := h
      exact ⟨books, items, waiting, carries, takes.keep way (by omega)⟩
    · rw [window.nack_eq least within empty]
      exact h.acknowledge keeps calm least most takes (window.split _).rewind
  cases kind with
  | ack =>
    have names : ((FrameId.prev count : Nat) : Int) % FrameId.space =
        ((count : Int) - 1) % FrameId.space := by
      simp only [FrameId.prev, FrameId.advance, FrameId.space]
      omega
    simp only [LinkState.takeControl, Answer.toFrame, window.ackThrough_eq least within names]
    exact h.acknowledge keeps calm least most takes (window.split _)
  | nack => exact asked
  | lost => exact asked

/-! ## Requests and responses -/

theorem Satisfies.takeRequest (keeps : upper.Keeps δ old arrived W') (calm : Calm W')
    (h : s.Satisfies old arrived W)
    (becomes : ∀ {way way'}, W s.journal way → Thinned way way' →
      W' (.cleared :: s.journal) (way' ++ [.response])) :
    (s.takeControl upper u ⟨.reset, resetRequest⟩).2.Satisfies old arrived W' := by
  obtain ⟨books, items, waiting, carries, way⟩ := h
  have thinned : Thinned (packets items ++ waiting) (packets items ++ []) :=
    (List.append_nil (packets items)).symm ▸ carries.thinned
  have cleared : { s.clear with disconnected := false }.Satisfies old arrived
      fun journal way => ∃ before, W s.journal before ∧ journal = Entry.cleared :: s.journal ∧
        Thinned before way :=
    ⟨books.clear, items, [], carries.drain, _, way, rfl, thinned⟩
  have said : ({ s.clear with disconnected := false }.queue .reset resetResponse).Satisfies
      old arrived W' :=
    cleared.queue Packet.valid_response (by simp) rfl fun ⟨before, holds, _, fewer⟩ thinner =>
      becomes holds ⟨thinner.sublist.trans fewer.sublist, thinner.asking.trans fewer.asking⟩
  exact (said.raise keeps calm .reset).raise keeps calm .connected

theorem Satisfies.takeResponse (keeps : upper.Keeps δ old arrived W') (calm : Calm W')
    (h : s.Satisfies old arrived W) (becomes : ∀ {way}, W s.journal way → W' s.journal way) :
    (s.takeControl upper u ⟨.reset, resetResponse⟩).2.Satisfies old arrived W' := by
  obtain ⟨books, items, waiting, carries, way⟩ := h
  have after : { s with disconnected := false }.Satisfies old arrived W' :=
    ⟨books, items, waiting, carries, becomes way⟩
  exact after.raise keeps calm .connected

end LinkState

end FramedLink
