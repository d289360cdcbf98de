import FramedLink.Proofs.Journal
import FramedLink.Proofs.Outstanding

/-! # What a link satisfies

The journal of a link and the packets it has on the way are described by a property of both. A
property that is not disturbed when something idle is written down, when an outstanding frame is
handed over and when a frame is accepted, is kept by everything that the layer above does.
-/

namespace FramedLink

open FramedLink.Frame

variable {δ ω υ α : Type}

/-- The packets that are accepted and not released. -/
def Journal.outstanding (journal : List (Entry ω)) : List Packet :=
  Packet.series (clears journal) (present journal).releases
    ((present journal).sends.drop (present journal).releases)

/-- The window and the counts of a link are what its journal tells. -/
structure Books (journal : List (Entry ω)) (window : SendWindow)
    (nextId expected acknowledged : Nat) : Prop where
  window : window.Holds (Journal.outstanding journal)
  released : (Journal.present journal).releases ≤ (Journal.present journal).sends.length
  nextId : nextId = (Journal.present journal).sends.length % FrameId.space
  expected : expected = (Journal.present journal).deliveries.length % FrameId.space
  acknowledged : acknowledged = Journal.counted journal

/-- What is on a line and what waits for it are packets, and noise between them. The items `old`
were there before, and `arrived` bytes of the first one have arrived. -/
structure Carries (old : List Item) (arrived : Nat) (line : Line δ) (queue : List ControlFrame)
    (items : List Item) (waiting : List Packet) : Prop where
  carried : line.items = items.map Item.bytes
  behind : old <+: items
  same : line.arrived = arrived
  queue : queue.map Frame.control = waiting.map Packet.frame
  valid : ∀ item ∈ items, item.Valid
  answers : ∀ packet ∈ waiting, packet.Valid ∧ packet ≠ .request

theorem Completes.carries {old items front back : List Item} {count arrived n : Nat} {line : Line δ}
    {queue : List ControlFrame} {waiting : List Packet}
    (completes : Completes items count front back n)
    (carries : Carries old arrived line queue items waiting) :
    Carries back n { line with items := back.map Item.bytes, arrived := n } queue back waiting where
  carried := rfl
  behind := List.prefix_refl back
  same := rfl
  queue := carries.queue
  valid item among := carries.valid item (completes.split ▸ List.mem_append_right front among)
  answers := carries.answers

/-- A property of a journal and of the packets on their way. -/
abbrev Property (ω : Type) := List (Entry ω) → List Packet → Prop

namespace LinkState

/-- The books of a link are right, and its journal and its packets have a property. -/
def Satisfies (old : List Item) (arrived : Nat) (W : Property ω) (s : LinkState (Line δ) ω) :
    Prop :=
  Books s.journal s.window s.nextId s.receiver.expected s.status.tx.dataFrames ∧
    ∃ items waiting, Carries old arrived s.driver s.control.waiting items waiting ∧
      W s.journal (packets items ++ waiting)

end LinkState

/-- Idle entries do not disturb the property. -/
def Calm (W : Property ω) : Prop :=
  ∀ {journal way entry}, W journal way → entry.Idle → W (entry :: journal) way

/-- The property is not disturbed by idle entries and by handing over what is outstanding. -/
structure Steady (W : Property ω) : Prop where
  idle : Calm W
  hand : ∀ {journal way packet}, W journal way → packet ∈ Journal.outstanding journal →
    W journal (way ++ [packet])

theorem Steady.and {W X : Property ω} (h : Steady W) (h' : Steady X) :
    Steady fun journal way => W journal way ∧ X journal way where
  idle holds idle := ⟨h.idle holds.1 idle, h'.idle holds.2 idle⟩
  hand holds among := ⟨h.hand holds.1 among, h'.hand holds.2 among⟩

/-- Nor is the property disturbed by the acceptance of a frame. -/
structure Tolerant (W : Property ω) : Prop extends Steady W where
  accept : ∀ {journal way metadata payload}, W journal way →
    (Journal.present journal).sends.length <
      (Journal.present journal).releases + FrameId.reach →
    W (.accepted metadata payload :: journal) way

/-! ## Idle entries -/

namespace Books

variable {journal : List (Entry ω)} {window : SendWindow} {nextId expected acknowledged : Nat}
  (h : Books journal window nextId expected acknowledged)
include h

theorem idle {entry : Entry ω} (idle : entry.Idle) :
    Books (entry :: journal) window nextId expected acknowledged where
  window := by
    rw [Journal.outstanding, Journal.present_idle idle, Journal.clears_idle idle]
    exact h.window
  released := by
    rw [Journal.present_idle idle]
    exact h.released
  nextId := by
    rw [Journal.present_idle idle]
    exact h.nextId
  expected := by
    rw [Journal.present_idle idle]
    exact h.expected
  acknowledged := by
    rw [Journal.counted_idle idle]
    exact h.acknowledged

theorem withFrames {frames : List Outgoing}
    (stores : List.Forall₂ Stores frames (Journal.outstanding journal)) (first : SentFirst frames) :
    Books journal { window with frames } nextId expected acknowledged :=
  { h with
    window := {
      stores := stores
      sentFirst := first
      fits := by
        rw [SendWindow.length, stores.length_eq, ← h.window.length_eq]
        exact h.window.fits
      reaches := h.window.reaches
      blocks := h.window.blocks } }

end Books

namespace Journal

theorem outstanding_idle {entry : Entry ω} (idle : entry.Idle) (journal : List (Entry ω)) :
    outstanding (entry :: journal) = outstanding journal := by
  simp only [outstanding, present_idle idle, clears_idle idle]

end Journal

/-! ## Handing over -/

theorem packets_append (front back : List Item) :
    packets (front ++ back) = packets front ++ packets back := List.filterMap_append

section Handing

variable [Driver δ] {old : List Item} {arrived : Nat}

theorem Carries.hand {line : Line δ} {queue queue' : List ControlFrame} {items : List Item}
    {waiting waiting' : List Packet} {packet : Packet}
    (h : Carries old arrived line queue items waiting) (valid : packet.Valid)
    (rest : queue'.map Frame.control = waiting'.map Packet.frame)
    (fewer : ∀ packet ∈ waiting', packet ∈ waiting) :
    Carries old arrived (Driver.send line packet.image) queue' (items ++ [.packet packet])
      waiting' where
  carried := by
    change line.items ++ [packet.image] = _
    rw [h.carried, List.map_append]
    rfl
  behind := h.behind.trans (List.prefix_append _ _)
  same := h.same
  queue := rest
  valid item among := by
    rcases List.mem_append.mp among with before | last
    · exact h.valid item before
    · rw [List.mem_singleton.mp last]
      exact valid
  answers packet among := h.answers packet (fewer packet among)

end Handing

namespace LinkState

variable {old : List Item} {arrived : Nat} {W : Property ω} {s : LinkState (Line δ) ω}

theorem Satisfies.note (calm : Calm W) (h : s.Satisfies old arrived W) {entry : Entry ω}
    (idle : entry.Idle) : (s.note entry).Satisfies old arrived W := by
  obtain ⟨books, items, waiting, carries, holds⟩ := h
  exact ⟨books.idle idle, items, waiting, carries, calm holds idle⟩

theorem Satisfies.imp {W' : Property ω} (h : s.Satisfies old arrived W)
    (weaker : ∀ {way}, W s.journal way → W' s.journal way) : s.Satisfies old arrived W' := by
  obtain ⟨books, items, waiting, carries, holds⟩ := h
  exact ⟨books, items, waiting, carries, weaker holds⟩

theorem Satisfies.rewind (h : s.Satisfies old arrived W) :
    { s with window := s.window.rewind }.Satisfies old arrived W := by
  obtain ⟨books, way⟩ := h
  exact ⟨{ books with window := books.window.rewind }, way⟩

variable [Driver δ]

/-- While control frames are handed over, those left come first in the queue. -/
theorem satisfies_handControls (calm : Calm W) (queue : List ControlFrame)
    (h : { s with control.waiting := queue }.Satisfies old arrived W) :
    { (handControls queue s).2 with
      control.waiting := (handControls queue s).1 }.Satisfies old arrived W := by
  induction queue generalizing s with
  | nil => exact h
  | cons f rest ih =>
    rw [handControls]
    split
    · exact h
    · obtain ⟨books, items, waiting, carries, holds⟩ := h
      cases waiting with
      | nil => cases carries.queue
      | cons packet others =>
        obtain ⟨first, later⟩ := List.cons.inj carries.queue
        have image : f.image = packet.image := congrArg Frame.image first
        have valid := (carries.answers packet List.mem_cons_self).1
        -- The packet leaves the waiting ones for the end of the line: the way stays the same.
        refine ih ⟨books.idle trivial, items ++ [.packet packet], others, ?_, ?_⟩
        · simp only [hand, image]
          exact carries.hand valid later fun _ => List.mem_cons_of_mem _
        · rw [packets_append, List.append_assoc]
          exact calm holds trivial

private theorem stores_handPending (now : Nat) {frames : List Outgoing} {held : List Packet}
    (stores : List.Forall₂ Stores frames held) (s : LinkState (Line δ) ω) :
    List.Forall₂ Stores (handPending now frames s).1 held := by
  induction stores generalizing s with
  | nil => exact .nil
  | cons here later ih =>
    rw [handPending]
    split
    · exact .cons here (ih s)
    · split
      · exact .cons here later
      · exact .cons (here.markSent now) (ih _)

private theorem sentFirst_handPending (now : Nat) {frames : List Outgoing} (h : SentFirst frames)
    (s : LinkState (Line δ) ω) : SentFirst (handPending now frames s).1 := by
  induction frames generalizing s with
  | nil => exact .nil
  | cons f rest ih =>
    have later := (List.pairwise_cons.mp h).2
    rw [handPending]
    split
    · next sent => exact List.pairwise_cons.mpr ⟨fun _ _ _ => sent, ih later s⟩
    · split
      · exact h
      · exact List.pairwise_cons.mpr ⟨fun _ _ _ => rfl, ih later _⟩

private theorem outstanding_handOutgoing (s : LinkState (Line δ) ω) (f : Outgoing) :
    Journal.outstanding (s.handOutgoing f).journal = Journal.outstanding s.journal := by
  have handed : (Entry.left (.handed f.image) : Entry ω).Idle := trivial
  have going : (Entry.going f.place : Entry ω).Idle := trivial
  exact (Journal.outstanding_idle handed _).trans (Journal.outstanding_idle going s.journal)

theorem Satisfies.handOutgoing {W' : Property ω} (calm : Calm W') {f : Outgoing} {packet : Packet}
    (here : Stores f packet) (h : { s with control.waiting := [] }.Satisfies old arrived W)
    (becomes : ∀ {way}, W s.journal way → W' s.journal (way ++ [packet])) :
    { s.handOutgoing f with control.waiting := [] }.Satisfies old arrived W' := by
  obtain ⟨books, items, waiting, carries, holds⟩ := h
  have none : waiting = [] := List.map_eq_nil_iff.mp carries.queue.symm
  subst none
  have going : (Entry.going f.place : Entry ω).Idle := trivial
  refine ⟨(books.idle going).idle trivial, items ++ [.packet packet], [], ?_, ?_⟩
  · simp only [LinkState.handOutgoing, hand, LinkState.note, here.image]
    exact carries.hand here.valid rfl fun _ => id
  · rw [packets_append, List.append_nil]
    rw [List.append_nil] at holds
    exact calm (calm (becomes holds) going) trivial

private theorem satisfies_handPending (steady : Steady W) (now : Nat) {frames : List Outgoing}
    {held : List Packet} (stores : List.Forall₂ Stores frames held)
    (among : ∀ packet ∈ held, packet ∈ Journal.outstanding s.journal)
    (h : { s with control.waiting := [] }.Satisfies old arrived W) :
    { (handPending now frames s).2 with control.waiting := [] }.Satisfies old arrived W := by
  induction stores generalizing s with
  | nil => exact h
  | @cons f packet rest others here later ih =>
    rw [handPending]
    split
    · exact ih (fun other inside => among other (List.mem_cons_of_mem _ inside)) h
    · split
      · exact h
      · refine ih (s := s.handOutgoing f) (fun other inside => ?_)
          (h.handOutgoing steady.idle here fun holds =>
            steady.hand holds (among packet List.mem_cons_self))
        rw [outstanding_handOutgoing]
        exact among other (List.mem_cons_of_mem _ inside)

theorem Satisfies.marked {now : Nat}
    (h : { (handPending now s.window.frames s).2 with control.waiting := [] }.Satisfies
      old arrived W)
    (first : SentFirst s.window.frames) :
    { (handPending now s.window.frames s).2 with
      control.waiting := []
      window.frames := (handPending now s.window.frames s).1 }.Satisfies old arrived W := by
  obtain ⟨books, way⟩ := h
  have held := books.window.stores
  simp only [congrArg LinkState.window (handPending_frame now s.window.frames s)] at held
  exact ⟨books.withFrames (stores_handPending now held s) (sentFirst_handPending now first s), way⟩

/-- What is handed over by a flush disturbs no steady property. -/
theorem Satisfies.flush (steady : Steady W) (h : s.Satisfies old arrived W) :
    s.flush.Satisfies old arrived W := by
  have controls := satisfies_handControls steady.idle s.control.waiting h
  unfold LinkState.flush
  split
  · next f rest s' left =>
    rw [left] at controls
    exact controls
  · next s' left =>
    rw [left] at controls
    have window : s'.window.Holds (Journal.outstanding s'.journal) := controls.1.window
    have pending : { (handPending s'.clock s'.window.frames s').2 with
        control.waiting := [] }.Satisfies old arrived W :=
      satisfies_handPending steady s'.clock window.stores (fun _ => id) controls
    exact pending.marked window.sentFirst

/-! ## What the layer above does -/

theorem books_push {journal : List (Entry ω)} {window window' : SendWindow}
    {nextId expected acknowledged : Nat}
    (h : Books journal window nextId expected acknowledged) {metadata : Nat} {payload : Bytes}
    (valid : (Packet.data (Journal.clears journal) (Journal.present journal).sends.length metadata
      payload).Valid)
    (room : window.isFull = false)
    (pushed : window.push nextId (DataFrame.image ⟨nextId, metadata, payload⟩) = some window') :
    Books (.accepted metadata payload :: journal) window' (FrameId.next nextId) expected
        acknowledged ∧
      (Journal.present journal).sends.length <
        (Journal.present journal).releases + FrameId.reach := by
  have released := h.released
  have length := h.window.length_eq
  have fits := h.window.fits
  have reaches := h.window.reaches
  simp only [Journal.outstanding, Packet.length_series, List.length_drop] at length
  simp only [SendWindow.isFull, decide_eq_false_iff_not, Nat.not_le] at room
  have below : (Journal.present journal).sends.length <
      (Journal.present journal).releases + FrameId.reach := by omega
  have next : Journal.outstanding (.accepted metadata payload :: journal) =
      Journal.outstanding journal ++ [.data (Journal.clears journal)
        (Journal.present journal).sends.length metadata payload] := by
    simp only [Journal.outstanding, Journal.present_accepted, Tally.accept, Journal.clears,
      List.drop_append_of_le_length released, Packet.series_append, List.length_drop,
      Nat.add_sub_cancel' released]
    rfl
  have ofId := h.nextId
  refine ⟨?_, below⟩
  exact {
    window := by
      rw [next]
      refine h.window.push valid ⟨_, rfl, ofId⟩ (by simpa [SendWindow.isFull] using room) ?_
      rw [ofId] at pushed
      rw [ofId]
      exact pushed
    released := by
      rw [Journal.present_accepted]
      simp only [Tally.accept, List.length_append]
      omega
    nextId := by
      rw [Journal.present_accepted, ofId]
      simp only [Tally.accept, FrameId.next, FrameId.advance, List.length_append,
        List.length_singleton, Nat.mod_add_mod]
    expected := by
      rw [Journal.present_accepted]
      exact h.expected
    acknowledged := h.acknowledged }

omit [Driver δ] in
theorem Satisfies.accept {W' : Property ω} (h : s.Satisfies old arrived W) {metadata : Nat}
    {payload : Bytes} {window : SendWindow} (some : payload ≠ [])
    (short : payload.length ≤ maxPayload) (fits : metadata ≤ maxMetadata)
    (room : s.window.isFull = false)
    (pushed : s.window.push s.nextId (DataFrame.image ⟨s.nextId, metadata, payload⟩) = .some window)
    (becomes : ∀ {way}, W s.journal way →
      (Journal.present s.journal).sends.length <
        (Journal.present s.journal).releases + FrameId.reach →
      W' (.accepted metadata payload :: s.journal) way) :
    ({ s with window, nextId := FrameId.next s.nextId }.note (.accepted metadata payload)).Satisfies
      old arrived W' := by
  obtain ⟨books, items, waiting, carries, holds⟩ := h
  have valid := Packet.valid_data some short fits (Journal.clears s.journal)
    (Journal.present s.journal).sends.length
  obtain ⟨after, below⟩ := books_push books valid room pushed
  exact ⟨after, items, waiting, carries, becomes holds below⟩

theorem Satisfies.send (tolerant : Tolerant W) (h : s.Satisfies old arrived W) (metadata : Nat)
    (payload : Bytes) : (s.send metadata payload).2.Satisfies old arrived W := by
  unfold LinkState.send
  split
  · exact h
  · split
    · exact h
    · split
      · exact h
      · split
        · exact h
        · next short some fits room =>
          simp only
          split
          · exact h
          · next window pushed =>
            exact Satisfies.flush tolerant.toSteady (h.accept some (Nat.le_of_not_lt short)
              (Nat.le_of_not_lt fits) (by simpa using room) pushed tolerant.accept)

/-- What a script does disturbs no tolerant property. -/
theorem Satisfies.run (tolerant : Tolerant W) (h : s.Satisfies old arrived W)
    (script : Script ω α) : (s.run script).2.Satisfies old arrived W := by
  induction script generalizing s with
  | done => exact h
  | send metadata payload next ih => exact ih _ (h.send tolerant metadata payload)
  | status next ih => exact ih _ h
  | clock next ih => exact ih _ h
  | capacity next ih => exact ih _ h
  | remark r next ih => exact ih (h.note tolerant.idle trivial)

end LinkState

end FramedLink
