import FramedLink.Link.Sink
import FramedLink.Proofs.Chunking
import FramedLink.Proofs.Hearing
import FramedLink.Proofs.Journal
import FramedLink.Proofs.WindowChanges
import FramedLink.Simulation.Application
import FramedLink.Simulation.Wire

/-! # What the driver has no say in

When a frame is handed over is a matter of the driver's space and clock and of how the stream is cut
into chunks. Two links that differ in nothing else accept the same frames, deliver the same frames
and release the same frames, as long as the layer above looks neither at the status nor at the
clock and time does not pass.
-/

namespace FramedLink

open FramedLink.Frame FramedLink.Framing

variable {δ δ' δ'' υ ω α : Type}

/-! ## The window apart from what was handed over -/

namespace SendWindow

/-- The window with its frames as if none had been handed over. -/
def unsent (w : SendWindow) : SendWindow := { w with frames := w.frames.map Outgoing.unsent }

variable (w : SendWindow) (id : Nat)

theorem length_unsent : w.unsent.length = w.length := List.length_map _

private theorem isFull_unsent : w.unsent.isFull = w.isFull := by
  simp only [isFull, length_unsent]
  rfl

private theorem room_unsent : w.unsent.room = w.room := by
  simp only [room, remaining, length_unsent]
  rfl

private theorem push_unsent (image : Bytes) :
    w.unsent.push id image = (w.push id image).map unsent := by
  cases pushed : w.push id image with
  | none =>
    have none := push_eq_none_iff.mp pushed
    exact push_eq_none_iff.mpr none
  | some w' =>
    obtain ⟨free, some, rfl⟩ := push_eq_some_iff.mp pushed
    refine push_eq_some_iff.mpr ⟨free, some, ?_⟩
    simp only [unsent, List.map_append]
    rfl

theorem split_unsent (released kept : List Outgoing) :
    w.unsent.split (released.map Outgoing.unsent) (kept.map Outgoing.unsent) =
      (w.split released kept).unsent := by
  simp only [split, unsent, List.map_map]
  rfl

private theorem clear_unsent : w.unsent.clear = w.clear.unsent :=
  congrArg (fun left : SendWindow => { left with entered := 0 }) (w.split_unsent w.frames [])

private theorem rewind_unsent : w.unsent.rewind = w.rewind.unsent := by
  simp only [rewind, unsent, List.map_map]
  rfl

private theorem spans_unsent : w.unsent.spans id = w.spans id := by
  simp only [spans, unsent, List.head?_map, List.getLast?_map]
  cases w.frames.head? <;> cases w.frames.getLast? <;> rfl

theorem ackThrough_unsent :
    w.unsent.ackThrough id = ((w.ackThrough id).1, (w.ackThrough id).2.unsent) := by
  have through : isThrough id ∘ Outgoing.unsent = isThrough id := rfl
  simp only [ackThrough, show w.unsent.frames = w.frames.map Outgoing.unsent from rfl,
    List.getLast?_map, List.takeWhile_map, List.dropWhile_map, through]
  cases w.frames.getLast? with
  | none => rfl
  | some newest =>
    simp only [Option.map_some, show newest.unsent.id = newest.id from rfl]
    split
    · rfl
    · rw [split_unsent, List.length_map]

private theorem ackOne_unsent :
    w.unsent.ackOne id = ((w.ackOne id).1, (w.ackOne id).2.unsent) := by
  have named : (fun f : Outgoing => decide (f.id = id)) ∘ Outgoing.unsent =
      fun f => decide (f.id = id) := rfl
  simp only [ackOne, show w.unsent.frames = w.frames.map Outgoing.unsent from rfl, List.find?_map,
    List.eraseP_map, named]
  cases w.frames.find? fun f => decide (f.id = id) with
  | none => rfl
  | some released => exact Prod.ext rfl (w.split_unsent [released] _)

private theorem nack_unsent :
    w.unsent.nack id = (w.nack id).map fun result => (result.1, result.2.unsent) := by
  simp only [nack, show w.unsent.frames = w.frames.map Outgoing.unsent from rfl,
    List.getLast?_map, spans_unsent, ackThrough_unsent]
  cases w.frames.getLast? with
  | none => rfl
  | some newest =>
    simp only [Option.map_some, show newest.unsent.id = newest.id from rfl]
    split
    · rw [rewind_unsent]
      rfl
    · rfl

private theorem answer_unsent (f : ControlFrame) :
    w.unsent.answer f = ((w.answer f).1, (w.answer f).2.unsent) := by
  have asked : (w.unsent.nack f.id).getD (0, w.unsent) =
      (((w.nack f.id).getD (0, w)).1, ((w.nack f.id).getD (0, w)).2.unsent) := by
    rw [nack_unsent]
    cases w.nack f.id <;> rfl
  unfold answer
  cases f.control with
  | ackAll => exact w.ackThrough_unsent f.id
  | ackOne => simp only [ackOne_unsent]
  | nackId => exact asked
  | nackFraming => exact asked
  | reset => rfl

end SendWindow

/-! ## The journal apart from what was handed over -/

/-- The entries that are not about frames handed to the driver. -/
def Journal.unhanded : List (Entry ω) → List (Entry ω)
  | [] => []
  | .left (.handed _) :: earlier => unhanded earlier
  | .going _ :: earlier => unhanded earlier
  | entry :: earlier => entry :: unhanded earlier

open Journal

private theorem calls_unhanded (journal : List (Entry ω)) :
    calls (unhanded journal) = calls journal := by
  induction journal with
  | nil => rfl
  | cons entry earlier ih =>
    rcases entry with (_ | _ | _ | _) | _ | _ | _ | _ | _ <;> simp only [unhanded, calls, ih]

private theorem unhanded_outward {entry : Entry ω} (outward : entry.Outward)
    (earlier : List (Entry ω)) : unhanded (entry :: earlier) = unhanded earlier := by
  rcases entry with (_ | _ | _ | _) | _ | _ | _ | _ | _ <;> first | rfl | cases outward

/-! ## States that differ in what was handed over -/

namespace LinkState

/-- The states of two links, perhaps over different drivers, that differ in nothing but what was
handed over, what waits to be, and what was counted. -/
structure Alike (s : LinkState δ ω) (t : LinkState δ' ω) : Prop where
  window : s.window.unsent = t.window.unsent
  receiver : s.receiver = t.receiver
  nextId : s.nextId = t.nextId
  disconnected : s.disconnected = t.disconnected
  journal : unhanded s.journal = unhanded t.journal

/-- Results that are the same, together with states that are alike. -/
def Matches (result : α × LinkState δ ω) (result' : α × LinkState δ' ω) : Prop :=
  result.1 = result'.1 ∧ result.2.Alike result'.2

variable {us : υ × LinkState δ ω} {us' : υ × LinkState δ' ω} {us'' : υ × LinkState δ'' ω}

namespace Alike

variable {s : LinkState δ ω} {t : LinkState δ' ω} {r : LinkState δ'' ω}

theorem refl (s : LinkState δ ω) : s.Alike s := ⟨rfl, rfl, rfl, rfl, rfl⟩

theorem symm (h : s.Alike t) : t.Alike s :=
  ⟨h.window.symm, h.receiver.symm, h.nextId.symm, h.disconnected.symm, h.journal.symm⟩

theorem trans (h : s.Alike t) (h' : t.Alike r) : s.Alike r :=
  ⟨h.window.trans h'.window, h.receiver.trans h'.receiver, h.nextId.trans h'.nextId,
    h.disconnected.trans h'.disconnected, h.journal.trans h'.journal⟩

theorem note (h : s.Alike t) {entry : Entry ω} : (s.note entry).Alike (t.note entry) := by
  refine ⟨h.window, h.receiver, h.nextId, h.disconnected, ?_⟩
  rcases entry with (_ | _ | _ | _) | _ | _ | _ | _ | _ <;>
    simp only [LinkState.note, unhanded, h.journal]

theorem queue (h : s.Alike t) (control control' : Control) (id id' : Nat) :
    (s.queue control id).Alike (t.queue control' id') :=
  ⟨h.window, h.receiver, h.nextId, h.disconnected, h.journal⟩

theorem clear (h : s.Alike t) : s.clear.Alike t.clear where
  window := by
    show s.window.clear.unsent = t.window.clear.unsent
    rw [← SendWindow.clear_unsent, h.window, SendWindow.clear_unsent]
  receiver := by
    show s.receiver.reset = t.receiver.reset
    rw [h.receiver]
  nextId := rfl
  disconnected := h.disconnected
  journal := congrArg (Entry.cleared :: ·) h.journal

theorem sendCapacity (h : s.Alike t) : s.sendCapacity = t.sendCapacity := by
  have room := congrArg SendWindow.room h.window
  rwa [SendWindow.room_unsent, SendWindow.room_unsent] at room

theorem release (h : s.Alike t) (count : Nat) : (s.release count).Alike (t.release count) :=
  ⟨h.window, h.receiver, h.nextId, h.disconnected, congrArg (Entry.released count :: ·) h.journal⟩

theorem connect (h : s.Alike t) :
    Alike { s with disconnected := false } { t with disconnected := false } :=
  ⟨h.window, h.receiver, h.nextId, rfl, h.journal⟩

theorem takeLoss (h : s.Alike t) : s.takeLoss.Alike t.takeLoss := by
  have claimed : Alike { s with receiver := s.receiver.claimNack.2 }
      { t with receiver := t.receiver.claimNack.2 } :=
    ⟨h.window, congrArg (·.claimNack.2) h.receiver, h.nextId, h.disconnected, h.journal⟩
  exact claimed.queue _ _ _ _

end Alike

theorem Matches.symm (h : Matches us us') : Matches us' us := ⟨h.1.symm, h.2.symm⟩

theorem Matches.trans (h : Matches us us') (h' : Matches us' us'') : Matches us us'' :=
  ⟨h.1.trans h'.1, h.2.trans h'.2⟩

section Flushing

variable [Driver δ] (s : LinkState δ ω)

private theorem unhanded_flush : unhanded s.flush.journal = unhanded s.journal := by
  obtain ⟨newer, outward, same⟩ := journal_flush s
  rw [same]
  clear same
  induction newer with
  | nil => rfl
  | cons entry rest ih =>
    obtain ⟨first, others⟩ := List.forall_mem_cons.mp outward
    rw [List.cons_append, unhanded_outward first, ih others]

theorem alike_flush : s.flush.Alike s := by
  have window := congrArg window (flush_frame s)
  have receiver := congrArg receiver (flush_frame s)
  have nextId := congrArg nextId (flush_frame s)
  have disconnected := congrArg disconnected (flush_frame s)
  refine ⟨?_, receiver, nextId, disconnected, unhanded_flush s⟩
  rw [window]
  simp only [SendWindow.unsent, unsent_flush]

end Flushing

end LinkState

/-! ## Layers above that look at neither status nor clock -/

/-- Neither the status nor the clock is asked for. -/
def Script.Blind : Script ω α → Prop
  | .done _ => True
  | .send _ _ next => ∀ result, (next result).Blind
  | .status _ => False
  | .clock _ => False
  | .capacity next => ∀ answer, (next answer).Blind
  | .remark _ next => next.Blind

/-- Neither is asked for, whatever the layer above is told. -/
structure Upper.Blind (upper : Upper υ ω) : Prop where
  onEvent : ∀ u event, (upper.onEvent u event).Blind
  onData : ∀ u metadata payload, (upper.onData u metadata payload).Blind

namespace LinkState.Alike

variable [Driver δ] [Driver δ'] {s : LinkState δ ω} {t : LinkState δ' ω} {upper : Upper υ ω}

theorem flush (h : s.Alike t) : s.flush.Alike t.flush :=
  (alike_flush s).trans (h.trans (alike_flush t).symm)

theorem send (h : s.Alike t) (metadata : Nat) (payload : Bytes) :
    Matches (s.send metadata payload) (t.send metadata payload) := by
  have full : s.window.isFull = t.window.isFull := by
    rw [← SendWindow.isFull_unsent, h.window, SendWindow.isFull_unsent]
  have pushed (image : Bytes) : (s.window.push s.nextId image).map SendWindow.unsent =
      (t.window.push s.nextId image).map SendWindow.unsent := by
    rw [← SendWindow.push_unsent, h.window, SendWindow.push_unsent]
  unfold LinkState.send
  rw [full, ← h.nextId]
  split
  · exact ⟨rfl, h⟩
  · split
    · exact ⟨rfl, h⟩
    · split
      · exact ⟨rfl, h⟩
      · split
        · exact ⟨rfl, h⟩
        · have same := pushed (DataFrame.image ⟨s.nextId, metadata, payload⟩)
          simp only
          split
          · next none =>
            rw [none] at same
            split
            · exact ⟨rfl, h⟩
            · next some =>
              rw [some] at same
              cases same
          · next window some =>
            rw [some] at same
            split
            · next none =>
              rw [none] at same
              cases same
            · next window' some' =>
              rw [some'] at same
              refine ⟨rfl, Alike.flush (Alike.note ?_)⟩
              exact ⟨Option.some.inj same, h.receiver, rfl, h.disconnected, h.journal⟩

theorem run (h : s.Alike t) {script : Script ω α} (blind : script.Blind) :
    Matches (s.run script) (t.run script) := by
  induction script generalizing s t with
  | done value => exact ⟨rfl, h⟩
  | send metadata payload next ih =>
    obtain ⟨same, alike⟩ := h.send metadata payload
    simp only [LinkState.run]
    rw [same]
    exact ih _ alike (blind _)
  | status => cases blind
  | clock => cases blind
  | capacity next ih =>
    simp only [LinkState.run]
    rw [h.sendCapacity]
    exact ih _ h (blind _)
  | remark r next ih => exact ih h.note blind

theorem raise (h : s.Alike t) (blind : upper.Blind) (u : υ) (event : Event) :
    Matches (s.raise upper u event) (t.raise upper u event) :=
  h.note.run (blind.onEvent u event)

theorem deliver (h : s.Alike t) (blind : upper.Blind) (u : υ) (metadata : Nat)
    (payload : Bytes) :
    Matches (s.deliver upper u metadata payload) (t.deliver upper u metadata payload) :=
  h.note.run (blind.onData u metadata payload)

end Alike

theorem Matches.raise [Driver δ] [Driver δ'] {upper : Upper υ ω} {us : υ × LinkState δ ω}
    {us' : υ × LinkState δ' ω} (blind : upper.Blind) (h : Matches us us') (event : Event) :
    Matches (us.2.raise upper us.1 event) (us'.2.raise upper us'.1 event) := by
  obtain ⟨same, alike⟩ := h
  rw [same]
  exact alike.raise blind us'.1 event

namespace Alike

variable [Driver δ] [Driver δ'] {s : LinkState δ ω} {t : LinkState δ' ω} {upper : Upper υ ω}

theorem takeData (h : s.Alike t) (blind : upper.Blind) (u : υ) (f : DataFrame) :
    Matches (s.takeData upper u f) (t.takeData upper u f) := by
  have received {receiver : Receiver} {status : LinkStatus} {status' : LinkStatus} :
      Alike { s with receiver, status } { t with receiver, status := status' } :=
    ⟨h.window, rfl, h.nextId, h.disconnected, h.journal⟩
  unfold LinkState.takeData
  rw [h.receiver]
  split
  · exact (queue received _ _ _ _).deliver blind u _ _
  · exact ⟨rfl, queue received _ _ _ _⟩
  · next nack receiver _ =>
    refine ⟨rfl, ?_⟩
    cases nack with
    | true => exact queue received _ _ _ _
    | false => exact received
  · exact ⟨rfl, received⟩

theorem acknowledge (h : s.Alike t) (blind : upper.Blind) (u : υ) (released : Nat) :
    Matches (s.acknowledge upper u released) (t.acknowledge upper u released) := by
  have counted := h.release released
  by_cases none : released = 0
  · simp only [LinkState.acknowledge, none, if_true]
    exact ⟨rfl, h⟩
  · cases silent : t.disconnected with
    | true =>
      simp only [LinkState.acknowledge, LinkState.note, none, h.disconnected, silent, if_true,
        if_false]
      exact counted.connect.raise blind u .connected
    | false =>
      simp only [LinkState.acknowledge, LinkState.note, none, h.disconnected, silent, if_false,
        Bool.false_eq_true]
      exact ⟨rfl, counted.window, counted.receiver, counted.nextId, rfl, counted.journal⟩

theorem takeRequest (h : s.Alike t) (blind : upper.Blind) (u : υ) {f : ControlFrame}
    (reset : f.control = .reset) (asks : f.id = resetRequest) :
    Matches (s.takeControl upper u f) (t.takeControl upper u f) := by
  have queued := h.clear.connect.queue .reset .reset resetResponse resetResponse
  simp only [LinkState.takeControl, reset, asks, if_true]
  exact (queued.raise blind u .reset).raise blind .connected

theorem takeControl (h : s.Alike t) (blind : upper.Blind) (u : υ) (f : ControlFrame) :
    Matches (s.takeControl upper u f) (t.takeControl upper u f) := by
  by_cases reset : f.control = .reset
  · by_cases asks : f.id = resetRequest
    · exact h.takeRequest blind u reset asks
    · simp only [LinkState.takeControl, reset, asks, if_false]
      exact h.connect.raise blind u .connected
  · have answered := congrArg (·.answer f) h.window
    simp only [SendWindow.answer_unsent] at answered
    obtain ⟨count, window⟩ := Prod.ext_iff.mp answered
    rw [takeControl_eq_acknowledge upper u s reset, takeControl_eq_acknowledge upper u t reset,
      show (s.window.answer f).1 = (t.window.answer f).1 from count]
    have alike : Alike { s with window := (s.window.answer f).2 }
        { t with window := (t.window.answer f).2 } :=
      ⟨window, h.receiver, h.nextId, h.disconnected, h.journal⟩
    exact alike.acknowledge blind u _

end LinkState.Alike

/-! ## Links -/

namespace LinkState.Matches

variable [Driver δ] [Driver δ'] {upper : Upper υ ω} {us : υ × LinkState δ ω}
  {us' : υ × LinkState δ' ω}

theorem takeNotice (h : Matches us us') (blind : upper.Blind) {notice notice' : Notice}
    (same : notice.happening = notice'.happening) :
    Matches (LinkState.takeNotice upper us notice) (LinkState.takeNotice upper us' notice') := by
  obtain ⟨u, s⟩ := us
  obtain ⟨u', t⟩ := us'
  obtain ⟨rfl, alike⟩ := h
  have counted (status status' : LinkStatus) :
      Alike { s with status } { t with status := status' } :=
    ⟨alike.window, alike.receiver, alike.nextId, alike.disconnected, alike.journal⟩
  unfold LinkState.takeNotice
  rw [same]
  cases notice'.happening with
  | frame f =>
    cases f with
    | data f => exact (counted _ _).takeData blind u f
    | control f => exact (counted _ _).takeControl blind u f
  | lost => exact ⟨rfl, (counted _ _).takeLoss⟩

theorem takeNotices (h : Matches us us') (blind : upper.Blind) {notices notices' : List Notice}
    (same : notices.map Notice.happening = notices'.map Notice.happening) :
    Matches (notices.foldl (LinkState.takeNotice upper) us)
      (notices'.foldl (LinkState.takeNotice upper) us') := by
  induction notices generalizing us us' notices' with
  | nil =>
    rw [List.map_eq_nil_iff.mp same.symm]
    exact h
  | cons notice rest ih =>
    obtain ⟨notice', rest', rfl, here, later⟩ := List.map_eq_cons_iff.mp same.symm
    exact ih (h.takeNotice blind here.symm) later.symm

/-- That what was noticed is counted, and handed over what there is space for, makes no
difference. -/
theorem settled (us : υ × LinkState δ ω) (counters : Counters) :
    Matches (us.1, { us.2 with status := us.2.status.withCounters counters }.flush) us :=
  ⟨rfl, (alike_flush _).trans ⟨rfl, rfl, rfl, rfl, rfl⟩⟩

end LinkState.Matches

/-- What a link is told from outside: what the layer above does with it, and what comes in. -/
inductive Stimulus where
  | send (metadata : Nat) (payload : Bytes)
  | byte (byte : UInt8)
  | reset
  deriving DecidableEq, Repr

/-- What an act tells a link, apart from the time. -/
def Act.stimuli : Act δ → List Stimulus
  | .send metadata payload => [.send metadata payload]
  | .receive chunk => chunk.map .byte
  | .reset => [.reset]
  | .process | .tune _ => []

/-- What tells a link this and no more. -/
def Stimulus.act : Stimulus → Act δ
  | .send metadata payload => .send metadata payload
  | .byte b => .receive [b]
  | .reset => .reset

namespace Link

/-- What several acts tell a link. -/
def stimuli (acts : List (Act δ)) : List Stimulus := acts.flatMap Act.stimuli

/-- Acts that tell a link one thing each. -/
def singly (stimuli : List Stimulus) : List (Act δ) := stimuli.map Stimulus.act

/-- A layer above in the same state over links that have the same framer and states alike. -/
structure Alike (ul : υ × Link δ ω) (ul' : υ × Link δ' ω) : Prop where
  framer : ul.2.framer = ul'.2.framer
  told : LinkState.Matches (ul.1, ul.2.state) (ul'.1, ul'.2.state)

namespace Alike

variable {ul : υ × Link δ ω} {ul' : υ × Link δ' ω} {ul'' : υ × Link δ'' ω}

theorem symm (h : Alike ul ul') : Alike ul' ul :=
  ⟨h.framer.symm, h.told.symm⟩

theorem trans (h : Alike ul ul') (h' : Alike ul' ul'') : Alike ul ul'' :=
  ⟨h.framer.trans h'.framer, h.told.trans h'.told⟩

end Alike

variable [Driver δ] [Driver δ'] {upper : Upper υ ω} {ul : υ × Link δ ω} {ul' : υ × Link δ' ω}

/-- The answers to what the layer above sends of its own accord, in their order. -/
def answers (upper : Upper υ ω) : υ × Link δ ω → List (Act δ) → List (Except Fault Unit)
  | _, [] => []
  | ul, .send metadata payload :: rest =>
    (ul.2.send metadata payload).1 :: answers upper (act upper ul (.send metadata payload)) rest
  | ul, act :: rest => answers upper (Link.act upper ul act) rest

private theorem answers_append (front back : List (Act δ)) :
    answers upper ul (front ++ back) =
      answers upper ul front ++ answers upper (acts upper ul front) back := by
  induction front generalizing ul with
  | nil => rfl
  | cons act rest ih =>
    cases act with
    | send metadata payload => exact congrArg (_ :: ·) ih
    | _ => exact ih

theorem Alike.receive (h : Alike ul ul') (blind : upper.Blind) (chunk : Bytes) :
    Alike (ul.2.receive upper ul.1 chunk) (ul'.2.receive upper ul'.1 chunk) where
  framer := congrArg (fun f => (f.receive chunk).1) h.framer
  told := by
    have noticed := congrArg (fun f => (f.receive chunk).2.map Notice.happening) h.framer
    exact (LinkState.Matches.settled _ _).trans
      ((h.told.takeNotices blind noticed).trans (LinkState.Matches.settled _ _).symm)

private theorem alike_receive_cons (blind : upper.Blind) (u : υ) (l : Link δ ω) (byte : UInt8)
    (rest : Bytes) :
    let first := l.receive upper u [byte]
    Alike (l.receive upper u (byte :: rest)) (first.2.receive upper first.1 rest) := by
  obtain ⟨framer, noticed⟩ := l.framer.receive_cons byte rest
  have same : LinkState.Matches (u, l.state) (u, l.state) := ⟨rfl, .refl l.state⟩
  have whole := same.takeNotices blind noticed
  rw [List.foldl_append] at whole
  have first := LinkState.Matches.settled
    ((l.framer.receive [byte]).2.foldl (LinkState.takeNotice upper) (u, l.state))
    (l.framer.receive [byte]).1.counters
  have second := first.symm.takeNotices blind
    (Eq.refl (((l.framer.receive [byte]).1.receive rest).2.map Notice.happening))
  exact ⟨framer, (LinkState.Matches.settled _ _).trans
    (whole.trans (second.trans (LinkState.Matches.settled _ _).symm))⟩

private theorem Alike.receive_singly (h : Alike ul ul') (blind : upper.Blind) (chunk : Bytes) :
    Alike (ul.2.receive upper ul.1 chunk) (acts upper ul' (singly (chunk.map .byte))) := by
  induction chunk generalizing ul ul' with
  | nil => exact ⟨h.framer, (LinkState.Matches.settled _ _).trans h.told⟩
  | cons byte rest ih =>
    have first := h.receive blind [byte]
    have cut := alike_receive_cons blind ul.1 ul.2 byte rest
    exact cut.trans (ih first)

private theorem answers_bytes (chunk : Bytes) :
    answers upper ul (singly (chunk.map .byte)) = [] := by
  induction chunk generalizing ul with
  | nil => rfl
  | cons byte rest ih => exact ih

theorem Alike.send (h : Alike ul ul') (metadata : Nat) (payload : Bytes) :
    (ul.2.send metadata payload).1 = (ul'.2.send metadata payload).1 ∧
      Alike (ul.1, (ul.2.send metadata payload).2) (ul'.1, (ul'.2.send metadata payload).2) := by
  obtain ⟨same, alike⟩ := h.told.2.send metadata payload
  exact ⟨same, h.framer, h.told.1, alike⟩

theorem Alike.reset (h : Alike ul ul') : Alike (ul.1, ul.2.reset) (ul'.1, ul'.2.reset) := by
  refine ⟨?_, h.told.1, ?_⟩
  · show ul.2.framer.reset.clearCounters = ul'.2.framer.reset.clearCounters
    rw [h.framer]
  · have cleared := h.told.2.clear
    have anew : LinkState.Alike
        { ul.2.state.clear with status := {}, disconnected := false }
        { ul'.2.state.clear with status := {}, disconnected := false } :=
      ⟨cleared.window, cleared.receiver, cleared.nextId, rfl, cleared.journal⟩
    exact (anew.note.queue _ _ _ _).flush

/-- An act on one link, and what it tells another one thing at a time. -/
theorem Alike.act (h : Alike ul ul') (blind : upper.Blind) {act : Act δ}
    (timeless : act ≠ .process) :
    Alike (Link.act upper ul act) (acts upper ul' (singly act.stimuli)) ∧
      answers upper ul [act] = answers upper ul' (singly act.stimuli) := by
  cases act with
  | send metadata payload =>
    obtain ⟨same, alike⟩ := h.send metadata payload
    exact ⟨alike, congrArg ([·]) same⟩
  | receive chunk => exact ⟨h.receive_singly blind chunk, (answers_bytes chunk).symm⟩
  | process => exact absurd rfl timeless
  | reset => exact ⟨h.reset, rfl⟩
  | tune driver =>
    obtain ⟨same, alike⟩ := h.told
    exact ⟨⟨h.framer, same, alike.window, alike.receiver, alike.nextId, alike.disconnected,
      alike.journal⟩, rfl⟩

theorem Alike.acts (h : Alike ul ul') (blind : upper.Blind) {acts : List (Act δ)}
    (timeless : .process ∉ acts) :
    Alike (Link.acts upper ul acts) (Link.acts upper ul' (singly (stimuli acts))) ∧
      answers upper ul acts = answers upper ul' (singly (stimuli acts)) := by
  induction acts generalizing ul ul' with
  | nil => exact ⟨h, rfl⟩
  | cons act rest ih =>
    have here : act ≠ .process := fun same => timeless (same ▸ List.mem_cons_self)
    have later : .process ∉ rest := fun among => timeless (List.mem_cons_of_mem act among)
    obtain ⟨alike, same⟩ := h.act blind here
    obtain ⟨alike', same'⟩ := ih alike later
    have pieces : (singly (stimuli (act :: rest)) : List (Act δ')) =
        singly act.stimuli ++ singly (stimuli rest) := List.map_append
    have first : answers upper ul (act :: rest) =
        answers upper ul [act] ++ answers upper (Link.act upper ul act) rest :=
      answers_append [act] rest
    rw [pieces, answers_append, first, Link.acts, Link.acts, List.foldl_append, same, same']
    exact ⟨alike', rfl⟩

theorem alike_ofConfig {config : Config} {driver : δ} {driver' : δ'} {l : Link δ ω}
    {l' : Link δ' ω} (started : ofConfig config driver = .ok l)
    (started' : ofConfig config driver' = .ok l') (u : υ) : Alike (u, l) (u, l') := by
  obtain ⟨-, rfl⟩ := ofConfig_eq_ok_iff.mp started
  obtain ⟨-, rfl⟩ := ofConfig_eq_ok_iff.mp started'
  exact ⟨rfl, rfl, rfl, rfl, rfl, rfl, rfl⟩

open Simulation

/-- Two links of one configuration are told the same things over drivers of different kinds, in
chunks that are cut differently, while no time passes. A layer above that asks for neither status
nor clock is then called in the same way and gets the same answers, and in the end the links have
the same framer, the same next ids, and the same frames in their windows. -/
theorem alike_acts {config : Config} {driver : δ} {driver' : δ'} {l : Link δ ω} {l' : Link δ' ω}
    (started : ofConfig config driver = .ok l) (started' : ofConfig config driver' = .ok l')
    (blind : upper.Blind) (u : υ) {acts : List (Act δ)} {acts' : List (Act δ')}
    (same : stimuli acts = stimuli acts') (timeless : .process ∉ acts)
    (timeless' : .process ∉ acts') :
    let (v, m) := Link.acts upper (u, l) acts
    let (v', m') := Link.acts upper (u, l') acts'
    Journal.calls m.state.journal = Journal.calls m'.state.journal ∧
      unhanded m.state.journal = unhanded m'.state.journal ∧ v = v' ∧
        answers upper (u, l) acts = answers upper (u, l') acts' ∧
          m.state.window.frames.map Outgoing.named = m'.state.window.frames.map Outgoing.named ∧
            m.state.nextId = m'.state.nextId ∧
              m.state.receiver.expected = m'.state.receiver.expected ∧ m.framer = m'.framer := by
  have fresh := alike_ofConfig started started' u
  obtain ⟨alike, asked⟩ := fresh.acts blind timeless
  obtain ⟨alike', asked'⟩ := (fresh.symm.trans fresh).acts blind timeless'
  rw [← same] at alike' asked'
  have whole := alike.trans alike'.symm
  have told : (Link.acts upper (u, l) acts).2.state.Alike (Link.acts upper (u, l') acts').2.state :=
    whole.told.2
  refine ⟨?_, told.journal, whole.told.1, asked.trans asked'.symm, ?_, told.nextId, ?_,
    whole.framer⟩
  · have calls := congrArg Journal.calls told.journal
    rwa [calls_unhanded, calls_unhanded] at calls
  · exact Outgoing.map_named_of_unsent (congrArg SendWindow.frames told.window)
  · exact congrArg Receiver.expected told.receiver

/-- A wire with little space gets a chunk in one piece, and a sink that fails gets it in two. -/
theorem alike_pieces :
    let l : Link Wire Remark := ⟨.ofCapacity maxSize, .ofConfig {} { budget := some 20 }⟩
    let l' : Link Sink Remark := ⟨.ofCapacity maxSize, .ofConfig {} { acceptances := [.failure] }⟩
    let chunk := DataFrame.image ⟨0, 3, [5]⟩ ++ ControlFrame.image ⟨.ackAll, 0⟩
    let acts : List (Act Wire) := [.send 7 [1], .receive chunk, .send 9 []]
    let acts' : List (Act Sink) := [.send 7 [1], .receive (chunk.take 4), .tune { now := 5 },
      .receive (chunk.drop 4), .send 9 []]
    let m := (Link.acts echoer ((), l) acts).2
    let m' := (Link.acts echoer ((), l') acts').2
    ofConfig {} { budget := some 20 } = .ok l ∧
      ofConfig {} { acceptances := [.failure] } = .ok l' ∧ echoer.Blind ∧
        stimuli acts = stimuli acts' ∧ .process ∉ acts ∧ .process ∉ acts' ∧
          m.state.window.frames.map (·.phase) = [.pending] ∧
            m'.state.window.frames.map (·.phase) = [.sent] ∧
              Journal.calls m'.state.journal = [.data 3 [5]] ∧
                (answers echoer ((), l') acts').map Except.isOk = [true, false] ∧
                  m.state.window.frames.map Outgoing.named =
                    m'.state.window.frames.map Outgoing.named := by
  intro l l' chunk acts acts' m m'
  have started : ofConfig {} { budget := some 20 } = .ok l :=
    ofConfig_eq_ok_iff.mpr ⟨Config.valid_default, rfl⟩
  have started' : ofConfig {} { acceptances := [.failure] } = .ok l' :=
    ofConfig_eq_ok_iff.mpr ⟨Config.valid_default, rfl⟩
  have blind : echoer.Blind := ⟨fun _ _ => trivial, fun _ _ _ _ => trivial⟩
  have same : stimuli acts = stimuli acts' := by decide +kernel
  have timeless : .process ∉ acts := by simp [acts]
  have timeless' : .process ∉ acts' := by simp [acts']
  obtain ⟨calls, -, -, asked, window, -⟩ :=
    alike_acts started started' blind () same timeless timeless'
  refine ⟨started, started', blind, same, timeless, timeless', ?_, ?_, ?_, ?_, window⟩
  · decide +kernel
  · decide +kernel
  · exact calls.symm.trans (by decide +kernel)
  · rw [← asked]
    decide +kernel

end Link

end FramedLink
