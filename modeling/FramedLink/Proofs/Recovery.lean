import FramedLink.Proofs.Flushing
import FramedLink.Proofs.InOrder
import FramedLink.Proofs.Silence

/-! # One round trip recovers

Whatever was lost: when the oldest frame is due and the drivers have space, one round trip in which
nothing is lost brings every frame across, and all of them count as acknowledged.

The side that sends hands over all its outstanding frames in their order. The first of them is not
ahead of what the peer expects, so each is delivered or known already, and the answer to the last
one acknowledges all. It comes last among the control frames, and those that give way in the queue
are older.
-/

namespace FramedLink

open FramedLink.Frame FramedLink.Journal
open Simulation (Side)

variable {δ υ ω : Type}

/-! ## What the sending side hands over -/

namespace LinkState

/-- When the oldest frame that was sent is due. -/
def deadline (s : LinkState δ ω) : Nat :=
  match s.window.oldestSent? with
  | none => 0
  | some oldest => oldest.sentAt + s.config.timeout

/-- The packets `left` are still to be handed over; then the last ones on the way are those that are
outstanding. -/
def Pouring (W : Property ω) (left : List Packet) : Property ω := fun journal way =>
  W journal way ∧ (∀ packet ∈ left, packet ∈ outstanding journal) ∧
    ∃ front, way ++ left = front ++ outstanding journal

variable {W : Property ω} {due : Nat} {old : List Item} {arrived : Nat}
  {s : LinkState (Line δ) ω}

theorem Pouring.calm (steady : Steady W) {left : List Packet} : Calm (Pouring W left) := by
  intro journal way entry ⟨holds, among, front, split⟩ idle
  rw [Pouring, outstanding_idle idle]
  exact ⟨steady.idle holds idle, among, front, split⟩

theorem Pouring.hand (steady : Steady W) {packet : Packet} {left way : List Packet}
    {journal : List (Entry ω)} (h : Pouring W (packet :: left) journal way) :
    Pouring W left journal (way ++ [packet]) := by
  obtain ⟨holds, among, front, split⟩ := h
  refine ⟨steady.hand holds (among packet List.mem_cons_self),
    fun other later => among other (List.mem_cons_of_mem _ later), front, ?_⟩
  rw [List.append_assoc]
  exact split

variable [Driver δ]

theorem Satisfies.pour (steady : Steady W) (h : s.Satisfies old arrived W)
    (pending : ∀ f ∈ s.window.frames, f.phase = .pending) (ready : Driver.Ready due s.driver) :
    s.flush.Satisfies old arrived (Pouring W []) :=
  Satisfies.flush_all (Pouring.calm steady) (Pouring.hand steady) pending ready
    (h.imp fun {way} holds => ⟨holds, fun _ => id, way, rfl⟩)

/-- Whatever was sent before, all outstanding frames are sent again. -/
theorem Satisfies.resend (steady : Steady W) (h : s.Satisfies old arrived W)
    (ready : Driver.Ready due s.driver) :
    { s with window := s.window.rewind }.flush.Satisfies old arrived (Pouring W []) ∧
      { s with window := s.window.rewind }.flush.control.waiting = [] := by
  refine ⟨h.rewind.pour steady (fun f among => ?_) ready,
    (flush_ready (s := { s with window := s.window.rewind }) ready).1⟩
  obtain ⟨g, -, rfl⟩ := List.mem_map.mp among
  rfl

/-- When the oldest frame is due, all outstanding frames are handed over, and nothing waits. -/
theorem Satisfies.process_all {upper : Upper υ ω} (silent : upper.Silent) {u : υ}
    (steady : Steady W) (h : s.Satisfies old arrived W)
    (ready : Driver.Ready s.deadline s.driver) :
    (s.flush.checkTimeout upper u).2.Satisfies old arrived (Pouring W []) ∧
      (s.flush.checkTimeout upper u).2.control.waiting = [] := by
  obtain ⟨empty, ready'⟩ := flush_ready ready
  have flushed := h.flush steady
  have told (holds : s.flush.Satisfies old arrived W) (oldest : Outgoing) :
      (if s.flush.config.retries ≤ oldest.attempts ∧ s.flush.disconnected = false then
        { s.flush with disconnected := true }.raise upper u .disconnected
        else (u, s.flush)).2.Satisfies old arrived W ∧
      Driver.Ready s.deadline (if s.flush.config.retries ≤ oldest.attempts ∧
          s.flush.disconnected = false then
        { s.flush with disconnected := true }.raise upper u .disconnected
        else (u, s.flush)).2.driver := by
    split
    · refine ⟨Satisfies.raise (silent.keeps δ steady.idle old arrived) steady.idle ?_ _, ?_⟩
      · exact holds
      · apply ready_raise
        exact ready'
    · exact ⟨holds, ready'⟩
  have resent (oldest : Outgoing) := (told flushed oldest).1.resend steady (told flushed oldest).2
  unfold LinkState.checkTimeout
  -- What was never sent is handed over by the flush, what was sent once by the timeout after it.
  cases sent : s.window.oldestSent? with
  | none =>
    have poured := h.pour steady (pending_of_oldestSent?_eq_none h.1.window.sentFirst sent) ready
    split
    · exact ⟨poured, empty⟩
    · next oldest _ =>
      split
      · exact ⟨poured, empty⟩
      · exact resent oldest
  | some oldest =>
    have clock : oldest.sentAt + s.config.timeout ≤ s.flush.clock := by
      have later := ready'.clock
      rwa [deadline, sent] at later
    rw [oldestSent?_flush sent]
    simp only
    rw [if_neg (by rw [config_flush]; omega)]
    exact resent oldest

end LinkState

/-! ## What a side takes -/

/-- Something more that holds of a side while it takes the packets `taken`, and is right again
after each of them. -/
structure Withstands (P : List Packet → Property ω) : Prop where
  calm : ∀ {taken}, Calm (P taken)
  data : ∀ {epoch place metadata payload rest journal},
    LinkState.TakesData (P (.data epoch place metadata payload :: rest)) (P rest) place metadata
      payload journal
  answer : ∀ {kind epoch count rest journal}, epoch = clears journal →
    count ≤ (present journal).sends.length →
    LinkState.TakesAnswer (P (.answer kind epoch count :: rest)) (P rest) count journal
  loss : ∀ {taken journal way way'}, P taken journal way → Thinned way way' →
    P taken journal (way' ++ [.answer .lost (clears journal) (delivered journal)])

namespace LinkState

theorem TakesData.and {W W' V V' : Property ω} {place metadata : Nat} {payload : Bytes}
    {journal : List (Entry ω)} (h : TakesData W W' place metadata payload journal)
    (h' : TakesData V V' place metadata payload journal) :
    TakesData (fun journal way => W journal way ∧ V journal way)
      (fun journal way => W' journal way ∧ V' journal way) place metadata payload journal where
  accept holds thinned here :=
    ⟨h.accept holds.1 thinned here, h'.accept holds.2 thinned here⟩
  again holds thinned before :=
    ⟨h.again holds.1 thinned before, h'.again holds.2 thinned before⟩
  ask holds thinned ahead := ⟨h.ask holds.1 thinned ahead, h'.ask holds.2 thinned ahead⟩
  pass holds ahead := ⟨h.pass holds.1 ahead, h'.pass holds.2 ahead⟩

theorem TakesAnswer.and {W W' V V' : Property ω} {count : Nat} {journal : List (Entry ω)}
    (h : TakesAnswer W W' count journal) (h' : TakesAnswer V V' count journal) :
    TakesAnswer (fun journal way => W journal way ∧ V journal way)
      (fun journal way => W' journal way ∧ V' journal way) count journal where
  release holds more := ⟨h.release holds.1 more, h'.release holds.2 more⟩
  keep holds same := ⟨h.keep holds.1 same, h'.keep holds.2 same⟩

variable [Driver δ] {old : List Item} {arrived : Nat} {s : LinkState (Line δ) ω}
  {upper : Upper υ ω} {u : υ} {x : View} {P : List Packet → Property ω}

/-- A side that takes all packets that are on their way goes on agreeing with its peer, and the
rest holds to the end. -/
theorem Satisfies.takeWithstanding (withstands : Withstands P) (silent : upper.Silent)
    {notices : List Framing.Notice} {taken : List Packet}
    (found : notices.filterMap Framing.Notice.frame? = taken.map Packet.frame)
    (h : s.Satisfies old arrived fun journal way =>
      Agrees 0 { x with way := taken } 0 journal way ∧ P taken journal way) :
    (notices.foldl (takeNotice upper) (u, s)).2.Satisfies old arrived fun journal way =>
      Agrees 0 { x with way := [] } 0 journal way ∧ P [] journal way := by
  refine Satisfies.takeNotices (I := fun taken journal way =>
    Agrees 0 { x with way := taken } 0 journal way ∧ P taken journal way)
    (fun {packet rest s u} h => ?_) (fun {rest s} h => ?_) found h
  · have agrees := h.2.choose_spec.choose_spec.2.1
    have calm : Calm fun (journal : List (Entry ω)) way =>
        Agrees 0 { x with way := rest } 0 journal way ∧ P rest journal way :=
      fun holds idle => ⟨agrees_tolerant.idle holds.1 idle, withstands.calm holds.2 idle⟩
    have keeps := silent.keeps δ @calm old arrived
    cases packet with
    | data epoch place metadata payload =>
      exact h.takeData keeps agrees.near.1 agrees.near.2 (agrees.takesData.and withstands.data)
    | answer kind epoch count =>
      have same := Agree.epoch_eq agrees rfl rfl rfl
      exact h.takeAnswer keeps calm agrees.fresh.1 agrees.fresh.2
        (agrees.takesAnswer.and (withstands.answer same agrees.fresh.2)) kind
    | request =>
      have none := agrees.epochs.2
      simp at none
    | response =>
      have none := agrees.back.due
      simp [View.of] at none
  · exact Satisfies.takeLoss h fun holds thinned =>
      ⟨Agrees.say holds.1 thinned .lost, withstands.loss holds.2 thinned⟩

end LinkState

/-! ## All frames come -/

private theorem Packet.eq_of_series {epoch first : Nat} {frames : List (Nat × Bytes)}
    {packet : Packet} {rest : List Packet} (same : series epoch first frames = packet :: rest) :
    (∃ metadata payload, packet = .data epoch first metadata payload) ∧
      rest = series epoch (first + 1) (frames.drop 1) := by
  rw [← drop_series, same]
  cases frames with
  | nil => cases same
  | cons frame others =>
    cases same
    exact ⟨⟨_, _, rfl⟩, rfl⟩

/-- The newest answer says what was delivered. -/
def Told : Property ω := fun journal way =>
  ∃ kind, way.getLast? = some (.answer kind (clears journal) (delivered journal))

/-- All frames from a place on that was reached come last among the packets still to be taken. Once
the first of them was taken, the newest answer says how far the side has come. -/
def Coming (frames : List (Nat × Bytes)) (first : Nat) (taken : List Packet) : Property ω :=
  fun journal way =>
    ∃ place, place ≤ delivered journal ∧ Packet.series 0 place (frames.drop place) <:+ taken ∧
      (place = first ∨ Told journal way)

section Coming

variable {frames : List (Nat × Bytes)} {first : Nat} {packet : Packet} {rest : List Packet}
  {journal : List (Entry ω)} {way : List Packet}

/-- The next packet is the frame at the place, or all frames from there come behind it. -/
theorem Coming.step (h : Coming frames first (packet :: rest) journal way) :
    ∃ place, place ≤ delivered journal ∧ (place = first ∨ Told journal way) ∧
      (Packet.series 0 place (frames.drop place) <:+ rest ∨
        (∃ metadata payload, packet = .data 0 place metadata payload) ∧
          Packet.series 0 (place + 1) (frames.drop (place + 1)) <:+ rest) := by
  obtain ⟨place, reached, suffix, told⟩ := h
  refine ⟨place, reached, told, ?_⟩
  rcases List.suffix_cons_iff.mp suffix with whole | behind
  · obtain ⟨next, rfl⟩ := Packet.eq_of_series whole
    rw [List.drop_drop]
    exact .inr ⟨next, List.suffix_refl _⟩
  · exact .inl behind

private theorem told_append (kind : Answer) (way : List Packet) :
    Told journal (way ++ [.answer kind (clears journal) (delivered journal)]) :=
  ⟨kind, List.getLast?_concat⟩

private theorem withstands_coming (frames : List (Nat × Bytes)) (first : Nat) :
    Withstands (ω := ω) (Coming frames first) where
  calm h idle := by
    simpa only [Coming, Told, delivered, present_idle idle, clears_idle idle] using h
  data {epoch place metadata payload rest journal} := by
    have one := delivered_delivered journal metadata payload
    constructor
    case accept =>
      intro way way' h _ here
      have told : Told (.left (.delivered metadata payload) :: journal)
          (way' ++ [.answer .ack (clears journal) (delivered journal + 1)]) := by
        rw [← one]
        exact told_append .ack way'
      obtain ⟨next, reached, -, behind | ⟨-, behind⟩⟩ := h.step
      · exact ⟨next, by omega, behind, .inr told⟩
      · exact ⟨next + 1, by omega, behind, .inr told⟩
    case again =>
      intro way way' h _ before
      obtain ⟨next, reached, -, behind | ⟨⟨_, _, same⟩, behind⟩⟩ := h.step
      · exact ⟨next, reached, behind, .inr (told_append .ack way')⟩
      · cases same
        exact ⟨place + 1, before, behind, .inr (told_append .ack way')⟩
    -- What comes next was reached, so a frame ahead of what is expected is not yet that one.
    case ask =>
      intro way way' h _ ahead
      obtain ⟨next, reached, -, behind | ⟨⟨_, _, same⟩, behind⟩⟩ := h.step
      · exact ⟨next, reached, behind, .inr (told_append .nack way')⟩
      · cases same
        omega
    case pass =>
      intro way h ahead
      obtain ⟨next, reached, told, behind | ⟨⟨_, _, same⟩, behind⟩⟩ := h.step
      · exact ⟨next, reached, behind, told⟩
      · cases same
        omega
  answer {kind epoch count rest journal} _ _ := by
    have kept {way : List Packet} (h : Coming frames first (.answer kind epoch count :: rest)
        journal way) : Coming frames first rest journal way := by
      obtain ⟨next, reached, told, behind | ⟨⟨_, _, same⟩, -⟩⟩ := h.step
      · exact ⟨next, reached, behind, told⟩
      · cases same
    exact {
      release := fun h _ => by
        simpa only [Coming, Told, delivered, present_released, Tally.release, clears] using kept h
      keep := fun h _ => kept h }
  loss {taken journal way way'} h _ := by
    obtain ⟨next, reached, suffix, -⟩ := h
    exact ⟨next, reached, suffix, .inr (told_append .lost way')⟩

end Coming

/-- So many frames were delivered, and if these are more than `first`, the answer to them is among
the packets on the way. -/
def Answered (count first : Nat) : Property ω := fun journal way =>
  count ≤ delivered journal ∧
    (count ≤ first ∨ ∃ kind, .answer kind (clears journal) (delivered journal) ∈ way)

private theorem steady_answered (count first : Nat) : Steady (ω := ω) (Answered count first) where
  idle h idle := by
    simpa only [Answered, delivered, present_idle idle, clears_idle idle] using h
  hand h _ := ⟨h.1, h.2.imp id fun ⟨kind, among⟩ => ⟨kind, List.mem_append_left _ among⟩⟩

theorem Coming.answered {frames : List (Nat × Bytes)} {first : Nat} {journal : List (Entry ω)}
    {way : List Packet} (h : Coming frames first [] journal way) :
    Answered frames.length first journal way := by
  obtain ⟨place, reached, suffix, told⟩ := h
  have none := congrArg List.length (List.suffix_nil.mp suffix)
  simp only [Packet.length_series, List.length_drop, List.length_nil] at none
  refine ⟨by omega, told.imp (fun same => by omega) fun ⟨kind, last⟩ => ?_⟩
  exact ⟨kind, List.mem_of_getLast? last⟩

/-! ## All answers come -/

/-- All frames that the side accepted are released, or the answer to all of them is among the
packets still to be taken. -/
def Settling (taken : List Packet) : Property ω := fun journal _ =>
  released journal = (present journal).sends.length ∨
    ∃ kind, .answer kind (clears journal) (present journal).sends.length ∈ taken

private theorem withstands_settling : Withstands (ω := ω) Settling where
  calm h idle := by
    simpa only [Settling, released, present_idle idle, clears_idle idle] using h
  data {epoch place metadata payload rest journal} := by
    have kept {way : List Packet} (h : Settling (.data epoch place metadata payload :: rest)
        journal way) : Settling rest journal way := by
      refine h.imp id fun ⟨kind, among⟩ => ⟨kind, ?_⟩
      simpa using among
    exact {
      accept := fun h _ _ => by
        simpa only [Settling, released, present_delivered, Tally.deliver, clears] using kept h
      again := fun h _ _ => kept h
      ask := fun h _ _ => kept h
      pass := fun h _ => kept h }
  answer {kind epoch count rest journal} same most := by
    constructor
    case release =>
      intro way h more
      have sum : released (.released (count - released journal) :: journal) = count := by
        rw [released, present_released]
        change released journal + _ = _
        omega
      rcases h with all | ⟨kind', among⟩
      · omega
      · rw [Settling, sum, present_released]
        rcases List.mem_cons.mp among with here | later
        · cases here
          exact .inl rfl
        · exact .inr ⟨kind', later⟩
    case keep =>
      intro way h here
      rcases h with all | ⟨kind', among⟩
      · exact .inl all
      · rcases List.mem_cons.mp among with is | later
        · cases is
          exact .inl here.symm
        · exact .inr ⟨kind', later⟩
  loss h _ := h

/-! ## The round trip -/

private theorem Line.beyond_flatten (items : List Bytes) :
    Line.beyond items items.flatten.length = ([], 0) := by
  induction items with
  | nil => rfl
  | cons item rest ih =>
    rw [Line.beyond, List.flatten_cons, List.length_append, if_pos (Nat.le_add_right _ _),
      Nat.add_sub_cancel_left]
    exact ih

namespace Pair

/-- What is on the lines is lost, and the drivers get other states. -/
def cut (p : Pair δ υ ω) (driver : Side → δ) : Pair δ υ ω :=
  fun side => (p side).setLine { driver := driver side }

variable {p : Pair δ υ ω} {items : Side → List Item} {waiting : Side → List Packet}

theorem Consistent.cut {resets : Nat} (h : p.Consistent resets (fun _ => 0) items waiting)
    (unopened : ∀ side, (p side).line.arrived = 0) (driver : Side → δ) :
    (p.cut driver).Consistent resets (fun _ => 0) (fun _ => []) waiting where
  books := h.books
  carries side := by
    have carries := h.carries side
    exact ⟨rfl, List.prefix_refl _, rfl, carries.queue, nofun, carries.answers⟩
  follows side := by
    have follows := h.follows side
    rw [unopened side] at follows
    exact follows.of_head (.inl rfl)
  agree side := by
    have thinned (side : Side) :
        Thinned (packets (items side) ++ waiting side) (packets [] ++ waiting side) := by
      have none := h.requests_eq_zero side
      have parts := none
      rw [requests_append] at parts
      exact ⟨List.sublist_append_right _ _, none ▸ (Nat.add_eq_zero_iff.mp parts).2⟩
    exact Agree.thin (Agree.thin (h.agree side) (thinned side)).symm (thinned side.other) |>.symm

variable [Driver δ]

/-- All that is on a line arrives at once. -/
def deliverAll (uppers : Side → Upper υ ω) (p : Pair δ υ ω) (source : Side) : Pair δ υ ω :=
  p.deliver uppers source (p source).line.items.flatten.length

/-- A round trip begun by one side, in which nothing is lost. -/
def roundTrip (uppers : Side → Upper υ ω) (p : Pair δ υ ω) (side : Side) : Pair δ υ ω :=
  ((p.process uppers side).deliverAll uppers side).deliverAll uppers side.other

theorem Consistent.processAll {resets : Nat} {awaiting : Side → Nat}
    (h : p.Consistent resets awaiting items waiting) (uppers : Side → Upper υ ω) (side : Side)
    (silent : (uppers side).Silent)
    (ready : Driver.Ready (p side).link.state.deadline (p side).line) :
    ∃ items' waiting', (p.process uppers side).Consistent resets awaiting items' waiting' ∧
      waiting' side = [] ∧ (p.process uppers side side).line.arrived = (p side).line.arrived ∧
      ∃ front, packets (items' side) =
        front ++ outstanding (p.process uppers side side).journal := by
  obtain ⟨poured, empty⟩ := (h.satisfies side).process_all silent (u := (p side).upper)
    agrees_tolerant.toSteady ready
  obtain ⟨items', waiting', consistent, -, -, same, front, split⟩ :=
    h.change (X := fun journal way => ∃ front, way = front ++ outstanding journal) side
      (fun s =>
        { link := (s.link.process (uppers side) s.upper).2
          upper := (s.link.process (uppers side) s.upper).1 }) rfl (h.framer side)
      (poured.imp fun holds => ⟨holds.1, by simpa only [List.append_nil] using holds.2.2⟩)
  have none : waiting' side = [] := by
    have queue := (consistent.carries side).queue
    rw [change_same] at queue
    exact List.map_eq_nil_iff.mp (queue.symm.trans (congrArg (List.map Frame.control) empty))
  rw [none, List.append_nil] at split
  unfold Pair.process
  rw [change_same]
  exact ⟨items', waiting', consistent, none, same, front, split⟩

theorem Consistent.deliverAll (h : p.Consistent 0 (fun _ => 0) items waiting)
    (uppers : Side → Upper υ ω) (source : Side) (silent : (uppers source.other).Silent)
    (unopened : (p source).line.arrived = 0) (empty : waiting source = [])
    {P : List Packet → Property ω} {X : Property ω} (withstands : Withstands P) (steady : Steady X)
    (weaker : ∀ {journal way}, P [] journal way → X journal way)
    (holds : P (packets (items source)) (p source.other).journal
      (packets (items source.other) ++ waiting source.other)) :
    ∃ items' waiting', (p.deliverAll uppers source).Consistent 0 (fun _ => 0) items' waiting' ∧
      (p.deliverAll uppers source source.other).line.arrived = (p source.other).line.arrived ∧
      X (p.deliverAll uppers source source.other).journal
        (packets (items' source.other) ++ waiting' source.other) := by
  obtain ⟨front, back, n, notices, completes, found, becomes⟩ :=
    h.taking uppers source (p source).line.items.flatten.length
  have all := completes.beyond
  rw [unopened, Nat.zero_add, (h.carries source).carried, Line.beyond_flatten] at all
  obtain rfl : back = [] := List.map_eq_nil_iff.mp (Prod.mk.inj all).1.symm
  have whole : items source = front := by
    rw [completes.split, List.append_nil]
  have agree := h.agree source.other
  rw [Side.other_other, empty, List.append_nil, whole] at agree
  rw [whole] at holds
  have after := LinkState.Satisfies.takeWithstanding (u := (p source.other).upper)
    (x := .of 0 (p source).journal (packets front)) withstands silent found
    ⟨h.books source.other, items source.other, waiting source.other, h.carries source.other, agree,
      holds⟩
  obtain ⟨items', waiting', consistent, -, -, same, more⟩ := becomes steady
    (after.imp fun holds => ⟨by rw [empty]; exact holds.1, weaker holds.2⟩)
  simp only [ite_self] at consistent
  exact ⟨items', waiting', consistent, same, more⟩

private theorem waiting_deliverAll (uppers : Side → Upper υ ω) (source : Side) {due : Nat}
    (ready : Driver.Ready due (p source.other).line) :
    (p.deliverAll uppers source source.other).link.state.control.waiting = [] := by
  simp only [Pair.deliverAll, Pair.deliver, change_same, change_of_ne _ (Side.other_ne source)]
  exact (Link.receive_ready ready _ _ _).1

/-- When all outstanding frames of one side arrive, the other has delivered all and says so. -/
theorem Consistent.deliverOutstanding (h : p.Consistent 0 (fun _ => 0) items waiting)
    (uppers : Side → Upper υ ω) (source : Side) (silent : (uppers source.other).Silent)
    (unopened : (p source).line.arrived = 0) (empty : waiting source = []) {front : List Packet}
    (split : packets (items source) = front ++ outstanding (p source).journal) :
    ∃ items' waiting', (p.deliverAll uppers source).Consistent 0 (fun _ => 0) items' waiting' ∧
      (p.deliverAll uppers source source.other).line.arrived = (p source.other).line.arrived ∧
      Answered (present (p source).journal).sends.length (released (p source).journal)
        (p.deliverAll uppers source source.other).journal
        (packets (items' source.other) ++ waiting' source.other) := by
  refine h.deliverAll uppers source silent unopened empty
    (withstands_coming (present (p source).journal).sends (released (p source).journal))
    (steady_answered _ _) Coming.answered ⟨released (p source).journal, ?_, ?_, .inl rfl⟩
  · have releases := (h.tallies source).2
    rwa [← present_eq_tally (h.clears_eq_zero _), ← present_eq_tally (h.clears_eq_zero _)]
      at releases
  · rw [split, outstanding, h.clears_eq_zero]
    exact List.suffix_append _ _

/-- When the answer to all frames arrives, none is outstanding. -/
theorem Consistent.deliverAnswers (h : p.Consistent 0 (fun _ => 0) items waiting)
    (uppers : Side → Upper υ ω) (source : Side) (silent : (uppers source.other).Silent)
    (unopened : (p source).line.arrived = 0) (empty : waiting source = [])
    (answered : Answered (present (p source.other).journal).sends.length
      (released (p source.other).journal) (p source).journal (packets (items source))) :
    (p.deliverAll uppers source source.other).link.inFlight = 0 ∧
      (tally (p.deliverAll uppers source source).journal).deliveries =
        (tally (p.deliverAll uppers source source.other).journal).sends := by
  -- Nothing to be answered is nothing outstanding; otherwise the answer to all is on the line.
  have settling : Settling (packets (items source)) (p source.other).journal
      (packets (items source.other) ++ waiting source.other) := by
    obtain ⟨all, few | ⟨kind, among⟩⟩ := answered
    · exact .inl (Nat.le_antisymm (h.books source.other).released few)
    · have most := (h.tallies source.other).1.length_le
      rw [Side.other_other, ← present_eq_tally (h.clears_eq_zero _),
        ← present_eq_tally (h.clears_eq_zero _)] at most
      have told : delivered (p source).journal = (present (p source.other).journal).sends.length :=
        Nat.le_antisymm most all
      rw [h.clears_eq_zero, told] at among
      exact .inr ⟨kind, by rwa [h.clears_eq_zero]⟩
  obtain ⟨items', waiting', h', -, settled⟩ :=
    h.deliverAll uppers source silent unopened empty withstands_settling
      (X := fun journal _ => released journal = (present journal).sends.length)
      ⟨fun all idle => by rwa [released, present_idle idle], fun all _ => all⟩
      (fun all => all.resolve_right fun ⟨_, among⟩ => nomatch among) settling
  have none := (h'.books source.other).window.length_eq
  rw [outstanding, Packet.length_series, List.length_drop] at none
  obtain ⟨delivers, releases⟩ := h'.tallies source.other
  rw [Side.other_other] at delivers releases
  rw [released] at settled
  refine ⟨none.trans (by omega), delivers.eq_of_length_le ?_⟩
  rw [present_eq_tally (h'.clears_eq_zero _)] at settled
  exact settled ▸ releases

/-- After a round trip begun by one side, every frame that it accepted was delivered and is
released. -/
theorem Agreed.roundTrip (h : p.Agreed 0 fun _ => 0) (uppers : Side → Upper υ ω)
    (silent : ∀ side, (uppers side).Silent) (side : Side)
    (unopened : ∀ side, (p side).line.arrived = 0) (driver : Side → δ)
    (due : Driver.Ready (p side).link.state.deadline (driver side))
    (space : Driver.Ready 0 (driver side.other)) :
    ((p.cut driver).roundTrip uppers side side).link.inFlight = 0 ∧
      (tally ((p.cut driver).roundTrip uppers side side.other).journal).deliveries =
        (tally ((p.cut driver).roundTrip uppers side side).journal).sends := by
  obtain ⟨items, waiting, h⟩ := h
  have other := Side.other_ne side
  obtain ⟨items₁, waiting₁, h₁, empty₁, unopened₁, front, split⟩ :=
    (h.cut unopened driver).processAll uppers side (silent side) (ready_line.mpr due)
  have peer₁ : (p.cut driver).process uppers side side.other = p.cut driver side.other :=
    change_of_ne _ other _
  unfold Pair.roundTrip
  -- The peer is not touched by the first of the three parts, nor this side by the second.
  generalize (p.cut driver).process uppers side = p₁ at *
  have ready₁ : Driver.Ready 0 (p₁ side.other).line := peer₁ ▸ ready_line.mpr space
  obtain ⟨items₂, waiting₂, h₂, unopened₂, answered⟩ :=
    h₁.deliverOutstanding uppers side (silent _) unopened₁ empty₁ split
  have queue := (h₂.carries side.other).queue
  rw [waiting_deliverAll uppers side ready₁] at queue
  have empty₂ : waiting₂ side.other = [] := List.map_eq_nil_iff.mp queue.symm
  have peer₂ : (p₁.deliverAll uppers side side).journal = (p₁ side).journal := by
    simp only [Pair.deliverAll, Pair.deliver, change_same, change_of_ne _ other.symm]
    rfl
  rw [empty₂, List.append_nil, ← peer₂] at answered
  have result := h₂.deliverAnswers uppers side.other (silent _) (unopened₂.trans (peer₁ ▸ rfl))
    empty₂
  rw [Side.other_other] at result
  exact result answered

/-- However two links came to lose frames, when the oldest frame of one side is due and both drivers
have space, one round trip in which nothing is lost brings every frame that this side accepted
across, once and in order, and none stays in flight. -/
theorem roundTrip_run {config : Side → Config} {driver : Side → δ} {upper : Side → υ}
    (started : start config driver upper = .ok p) (uppers : Side → Upper υ ω)
    (silent : ∀ side, (uppers side).Silent) {moves : List (Move δ)}
    (plain : ∀ move ∈ moves, move.Plain)
    (unopened : ∀ side, (p.run uppers moves side).line.arrived = 0) (side : Side)
    (spacious : Side → δ)
    (due : Driver.Ready (p.run uppers moves side).link.state.deadline (spacious side))
    (space : Driver.Ready 0 (spacious side.other)) :
    let q := ((p.run uppers moves).cut spacious).roundTrip uppers side
    (q side).link.inFlight = 0 ∧
      (tally (q side.other).journal).deliveries = (tally (q side).journal).sends :=
  Agreed.roundTrip (Agreed.run uppers ⟨_, _, consistent_start started⟩ plain) uppers silent side
    unopened spacious due space

/-- Of four frames the first has arrived, the second is lost, the third comes too early, and for the
fourth there is no space. What the peer says of them is lost as well. -/
theorem roundTrip_lost :
    let p : Pair Simulation.Wire Unit Unit :=
      fresh (fun _ => {}) (fun _ => { budget := some 50 }) fun _ => ()
    let moves := [.send .a 6 [0], .deliver .a 13, .lose .b 0, .send .a 7 [1, 2, 3],
      .send .a 8 [4, 5], .send .a 9 [6], .lose .a 0, .deliver .a 14, .lose .b 0]
    start (fun _ => {}) (fun _ => { budget := some 50 }) (fun _ => ()) = .ok p ∧
      (p.run (fun _ => idleUpper) moves .a).link.inFlight = 4 ∧
      (tally (p.run (fun _ => idleUpper) moves .b).journal).deliveries = [(6, [0])] ∧
      let q := ((p.run (fun _ => idleUpper) moves).cut fun _ => { now := 100 }).roundTrip
        (fun _ => idleUpper) .a
      (q .a).link.inFlight = 0 ∧
        (tally (q (Side.a).other).journal).deliveries = (tally (q .a).journal).sends := by
  intro p moves
  have started : start (fun _ => {}) (fun _ => { budget := some 50 }) (fun _ => ()) = .ok p :=
    start_eq_ok_iff.mpr ⟨fun _ => Config.valid_default, rfl⟩
  have plain : ∀ move ∈ moves, move.Plain := by decide +kernel
  have unopened (side : Side) : (p.run (fun _ => idleUpper) moves side).line.arrived = 0 := by
    cases side <;> decide +kernel
  have deadline : (p.run (fun _ => idleUpper) moves .a).link.state.deadline ≤ 100 := by
    decide +kernel
  refine ⟨started, by decide +kernel, by decide +kernel, ?_⟩
  exact roundTrip_run started (fun _ => idleUpper) (fun _ => silent_idleUpper) plain unopened .a _
    (ready_wire deadline []) (ready_wire (Nat.zero_le _) [])

end Pair

end FramedLink
