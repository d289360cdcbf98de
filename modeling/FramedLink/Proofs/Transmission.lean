import FramedLink.Proofs.FrameStream
import FramedLink.Proofs.Journal
import FramedLink.Proofs.Lasting
import FramedLink.Proofs.Outstanding
import FramedLink.Proofs.WindowChanges
import FramedLink.Simulation.Application
import FramedLink.Simulation.Wire

/-! # What goes out

Everything that a link hands to its driver is the image of a frame, so whoever reads the stream
finds just these frames, and no flaw. A data frame goes out as it was accepted, however often it
does, and for the first time behind all that were accepted before it and went out already.
-/

namespace FramedLink

open FramedLink.Frame FramedLink.Journal

/-! ## What was handed over -/

variable {ω : Type}

/-- The places of the data frames that were handed over, oldest first. -/
def Journal.goings : List (Entry ω) → List Nat
  | [] => []
  | .going place :: earlier => goings earlier ++ [place]
  | _ :: earlier => goings earlier

/-- The entry is about nothing that was handed over. -/
def Entry.Quiet (entry : Entry ω) : Prop := ¬entry.Outward

theorem Entry.quiet_cleared : (.cleared : Entry ω).Quiet := not_false

theorem Entry.quiet_accepted (metadata : Nat) (payload : Bytes) :
    (.accepted metadata payload : Entry ω).Quiet :=
  not_false

theorem Journal.handed_cons_of_quiet {entry : Entry ω} (quiet : entry.Quiet)
    (earlier : List (Entry ω)) : handed (entry :: earlier) = handed earlier := by
  rcases entry with (_ | _ | _ | _) | _ | _ | _ | _ | _ <;> first | rfl | exact absurd trivial quiet

theorem Journal.goings_cons_of_quiet {entry : Entry ω} (quiet : entry.Quiet)
    (earlier : List (Entry ω)) : goings (entry :: earlier) = goings earlier := by
  rcases entry with (_ | _ | _ | _) | _ | _ | _ | _ | _ <;> first | rfl | exact absurd trivial quiet

private theorem Journal.mem_of_mem_handed {journal : List (Entry ω)} {bytes : Bytes}
    (among : bytes ∈ handed journal) : .left (.handed bytes) ∈ journal := by
  induction journal with
  | nil => cases among
  | cons entry earlier ih =>
    rcases entry with (last | _ | _ | _) | _ | _ | _ | _ | _
    · rcases List.mem_append.mp among with before | here
      · exact List.mem_cons_of_mem _ (ih before)
      · rw [List.mem_singleton.mp here]
        exact List.mem_cons_self
    all_goals exact List.mem_cons_of_mem _ (ih among)

theorem Journal.mem_part {journal : List (Entry ω)} {entry : Entry ω} (among : entry ∈ journal) :
    ∃ epoch, entry ∈ part epoch journal := by
  induction journal with
  | nil => cases among
  | cons newest earlier ih =>
    rcases List.mem_cons.mp among with rfl | before
    · refine ⟨clears earlier, ?_⟩
      rw [part, if_pos rfl]
      exact List.mem_cons_self
    · obtain ⟨epoch, inside⟩ := ih before
      refine ⟨epoch, ?_⟩
      rw [part]
      split
      · exact List.mem_cons_of_mem _ inside
      · exact inside

/-- The places of the data frames that were handed over in the present epoch. -/
def Journal.gone (journal : List (Entry ω)) : List Nat := goings (part (clears journal) journal)

/-- Bytes are handed over, and the place of a data frame is written down before. -/
@[simp] theorem Journal.gone_data (bytes : Bytes) (place : Nat) (journal : List (Entry ω)) :
    gone (.left (.handed bytes) :: .going place :: journal) = gone journal ++ [place] := by
  simp [gone, part, clears, goings]

@[simp] theorem Journal.gone_handed (bytes : Bytes) (journal : List (Entry ω)) :
    gone (.left (.handed bytes) :: journal) = gone journal := by
  simp [gone, part, clears, goings]

theorem Journal.gone_quiet {entry : Entry ω} (quiet : entry.Quiet) {journal : List (Entry ω)}
    (epoch : clears (entry :: journal) = clears journal) :
    gone (entry :: journal) = gone journal := by
  rw [gone, epoch, part, if_pos rfl, goings_cons_of_quiet quiet, gone]

@[simp] theorem Journal.gone_cleared (journal : List (Entry ω)) :
    gone (.cleared :: journal) = [] := by
  rw [gone, clears, part, if_neg (Nat.ne_of_lt (Nat.lt_succ_self _)),
    part_of_clears_lt (Nat.lt_succ_self _), goings]

/-- The bytes stand for what was accepted at this place of an epoch. -/
def AcceptedAs (sends : List (Nat × Bytes)) (place : Nat) (bytes : Bytes) : Prop :=
  ∃ metadata payload, sends[place]? = some (metadata, payload) ∧
    let frame : DataFrame := ⟨place % FrameId.space, metadata, payload⟩
    (Frame.data frame).Valid ∧ bytes = frame.image

/-- What is written down of an epoch about frames that were handed over: of a data frame its place
and then its image, of a control frame its image. What goes out for the first time was accepted
behind all that went out before. -/
inductive Transmits : List (Entry ω) → Prop where
  | nothing : Transmits []
  | data {earlier : List (Entry ω)} {place : Nat} {bytes : Bytes} (before : Transmits earlier)
      (accepted : AcceptedAs (tally earlier).sends place bytes)
      (order : place ∈ goings earlier ∨ ∀ p ∈ goings earlier, p < place) :
      Transmits (.left (.handed bytes) :: .going place :: earlier)
  | control {earlier : List (Entry ω)} {f : ControlFrame} (before : Transmits earlier)
      (small : f.id ≤ maxId) : Transmits (.left (.handed f.image) :: earlier)
  | other {earlier : List (Entry ω)} {entry : Entry ω} (before : Transmits earlier)
      (quiet : entry.Quiet) : Transmits (entry :: earlier)

theorem AcceptedAs.lt {sends : List (Nat × Bytes)} {place : Nat} {bytes : Bytes}
    (h : AcceptedAs sends place bytes) : place < sends.length := by
  obtain ⟨_, _, sent, -⟩ := h
  exact (List.getElem?_eq_some_iff.mp sent).1

theorem AcceptedAs.append {sends : List (Nat × Bytes)} {place : Nat} {bytes : Bytes}
    (h : AcceptedAs sends place bytes) (more : List (Nat × Bytes)) :
    AcceptedAs (sends ++ more) place bytes := by
  have inside := h.lt
  obtain ⟨metadata, payload, sent, stands⟩ := h
  refine ⟨metadata, payload, ?_, stands⟩
  rw [List.getElem?_append_left inside, sent]

namespace Transmits

variable {entries : List (Entry ω)}

private theorem length_le_add (t : Tally) (entry : Entry ω) :
    t.sends.length ≤ (t.add entry).sends.length := by
  rcases entry with (_ | _ | _ | _) | _ | _ | _ | _ | _ <;>
    simp [Tally.add, Tally.accept, Tally.deliver, Tally.release]

theorem lt_length (h : Transmits entries) :
    ∀ p ∈ goings entries, p < (tally entries).sends.length := by
  induction h with
  | nothing => nofun
  | data before accepted _ ih =>
    intro p among
    rcases List.mem_append.mp among with earlier | here
    · exact ih p earlier
    · rw [List.mem_singleton.mp here]
      exact accepted.lt
  | control before small ih => exact ih
  | @other earlier _ before quiet ih =>
    rw [goings_cons_of_quiet quiet]
    intro p among
    exact Nat.lt_of_lt_of_le (ih p among) (length_le_add _ _)

theorem valid (h : Transmits entries) {bytes : Bytes}
    (among : .left (.handed bytes) ∈ entries) : ∃ f : Frame, f.Valid ∧ f.image = bytes := by
  induction h with
  | nothing => cases among
  | data _ accepted _ ih =>
    rcases List.mem_cons.mp among with here | before
    · obtain ⟨_, _, -, valid, same⟩ := accepted
      cases here
      exact ⟨_, valid, same.symm⟩
    · rcases List.mem_cons.mp before with here | before
      · cases here
      · exact ih before
  | @control _ f _ small ih =>
    rcases List.mem_cons.mp among with here | before
    · cases here
      exact ⟨.control f, small, rfl⟩
    · exact ih before
  | other _ quiet ih =>
    rcases List.mem_cons.mp among with here | before
    · rw [← here] at quiet
      exact absurd trivial quiet
    · exact ih before

end Transmits

/-- In each epoch frames were handed over in this manner. -/
def Transmitted (journal : List (Entry ω)) : Prop := ∀ epoch, Transmits (part epoch journal)

namespace Transmitted

variable {journal : List (Entry ω)}

theorem nothing : Transmitted ([] : List (Entry ω)) := fun _ => .nothing

/-- The data frame that was accepted at this place of the present epoch is handed over. -/
theorem data (h : Transmitted journal) {place : Nat} {bytes : Bytes}
    (accepted : AcceptedAs (present journal).sends place bytes)
    (order : place ∈ gone journal ∨ ∀ p ∈ gone journal, p < place) :
    Transmitted (.left (.handed bytes) :: .going place :: journal) := by
  intro epoch
  have same : clears (.going place :: journal) = clears journal := rfl
  rw [part, part, same]
  by_cases here : clears journal = epoch
  · subst here
    rw [if_pos rfl, if_pos rfl]
    exact .data (h _) accepted order
  · rw [if_neg here, if_neg here]
    exact h epoch

theorem control (h : Transmitted journal) {f : ControlFrame} (small : f.id ≤ maxId) :
    Transmitted (.left (.handed f.image) :: journal) := by
  intro epoch
  rw [part]
  split
  · exact .control (h epoch) small
  · exact h epoch

theorem other (h : Transmitted journal) {entry : Entry ω} (quiet : entry.Quiet) :
    Transmitted (entry :: journal) := by
  intro epoch
  rw [part]
  split
  · exact .other (h epoch) quiet
  · exact h epoch

/-- All that was ever handed over are the images of frames. -/
theorem handed_eq (h : Transmitted journal) :
    ∃ frames : List Frame, (∀ f ∈ frames, f.Valid) ∧ handed journal = frames.map Frame.image := by
  have valid : ∀ bytes ∈ handed journal, ∃ f : Frame, f.Valid ∧ f.image = bytes := by
    intro bytes among
    obtain ⟨epoch, inside⟩ := mem_part (mem_of_mem_handed among)
    exact (h epoch).valid inside
  generalize handed journal = all at valid
  induction all with
  | nil => exact ⟨[], nofun, rfl⟩
  | cons bytes rest ih =>
    obtain ⟨⟨f, here, image⟩, others⟩ := List.forall_mem_cons.mp valid
    obtain ⟨frames, later, images⟩ := ih others
    refine ⟨f :: frames, List.forall_mem_cons.mpr ⟨here, later⟩, ?_⟩
    rw [List.map_cons, image, images]

end Transmitted

/-! ## What is still to be acknowledged -/

/-- A frame of the window is what was accepted at its place. -/
structure Placed (sends : List (Nat × Bytes)) (f : Outgoing) : Prop where
  id : f.id = f.place % FrameId.space
  accepted : AcceptedAs sends f.place f.image

/-- A frame of the window was handed over if it says so; if it does not, it is behind all that
were. -/
structure Traced (sends : List (Nat × Bytes)) (gone : List Nat) (f : Outgoing) : Prop
    extends Placed sends f where
  attempts : f.place ∈ gone ↔ 0 < f.attempts
  phase : f.phase = .sent → 0 < f.attempts
  first : f.attempts = 0 → ∀ p ∈ gone, p < f.place

namespace Traced

variable {sends : List (Nat × Bytes)} {gone : List Nat} {f : Outgoing} {other : Nat}

theorem append (h : Traced sends gone f) (more : List (Nat × Bytes)) :
    Traced (sends ++ more) gone f where
  id := h.id
  accepted := h.accepted.append more
  attempts := h.attempts
  phase := h.phase
  first := h.first

theorem rewind (h : Traced sends gone f) : Traced sends gone f.rewind where
  id := h.id
  accepted := h.accepted
  attempts := h.attempts
  phase := nofun
  first := h.first

theorem mark (h : Traced sends gone f) (now : Nat) :
    Traced sends (gone ++ [f.place]) (f.markSent now) := by
  have some : 0 < (f.markSent now).attempts := Nat.lt_min.mpr ⟨Nat.succ_pos _, by decide⟩
  refine ⟨⟨h.id, h.accepted⟩, ?_, fun _ => some, fun none => ?_⟩
  · exact ⟨fun _ => some, fun _ => List.mem_append_right gone List.mem_cons_self⟩
  · rw [none] at some
    exact absurd some (Nat.lt_irrefl 0)

/-- Another frame is handed over; if this one was not yet, it is behind that one. -/
theorem pass (h : Traced sends gone f) (apart : other ≠ f.place)
    (before : f.attempts = 0 → other < f.place) : Traced sends (gone ++ [other]) f where
  id := h.id
  accepted := h.accepted
  attempts := by
    rw [List.mem_append, List.mem_singleton, ← h.attempts]
    simp [Ne.symm apart]
  phase := h.phase
  first := by
    intro none p among
    rcases List.mem_append.mp among with earlier | here
    · exact h.first none p earlier
    · rw [List.mem_singleton.mp here]
      exact before none

theorem entering {w : SendWindow} {id metadata : Nat} {payload : Bytes}
    (size : (DataFrame.image ⟨id, metadata, payload⟩).length ≤ w.pool.blockSize)
    (entered : w.entered = sends.length) (numbered : id = sends.length % FrameId.space)
    (valid : (Frame.data ⟨sends.length % FrameId.space, metadata, payload⟩).Valid)
    (before : ∀ p ∈ gone, p < sends.length) :
    Traced (sends ++ [(metadata, payload)]) gone
      (w.entering id (DataFrame.image ⟨id, metadata, payload⟩)) := by
  have place : (w.entering id (DataFrame.image ⟨id, metadata, payload⟩)).place = sends.length :=
    entered
  refine ⟨⟨?_, ?_⟩, ?_, nofun, fun _ => ?_⟩
  · rw [place]
    exact numbered
  · rw [place]
    refine ⟨metadata, payload, by simp, valid, ?_⟩
    rw [SendWindow.image_entering size, numbered]
  · rw [place]
    exact ⟨fun among => absurd (before _ among) (Nat.lt_irrefl _), nofun⟩
  · rw [place]
    exact before

end Traced

/-- What was handed over, and the frames of the window in the order of their places. -/
structure Tracing (journal : List (Entry ω)) (window : SendWindow) (nextId : Nat) : Prop where
  transmitted : Transmitted journal
  traced : ∀ f ∈ window.frames, Traced (present journal).sends (gone journal) f
  increasing : (window.frames.map (·.place)).Pairwise (· < ·)
  entered : window.entered = (present journal).sends.length
  nextId : nextId = (present journal).sends.length % FrameId.space
  blockSize : window.pool.blockSize = maxSize

namespace Tracing

variable {journal : List (Entry ω)} {window window' : SendWindow} {nextId : Nat}

theorem note (h : Tracing journal window nextId) {entry : Entry ω}
    (more : Transmitted (entry :: journal))
    (sends : (present (entry :: journal)).sends = (present journal).sends)
    (same : gone (entry :: journal) = gone journal) :
    Tracing (entry :: journal) window nextId where
  transmitted := more
  traced := by
    rw [sends, same]
    exact h.traced
  increasing := h.increasing
  entered := by
    rw [sends]
    exact h.entered
  nextId := by
    rw [sends]
    exact h.nextId
  blockSize := h.blockSize

theorem other (h : Tracing journal window nextId) {entry : Entry ω}
    (epoch : clears (entry :: journal) = clears journal)
    (sends : (present (entry :: journal)).sends = (present journal).sends) (quiet : entry.Quiet) :
    Tracing (entry :: journal) window nextId :=
  h.note (h.transmitted.other quiet) sends (gone_quiet quiet epoch)

theorem idle (h : Tracing journal window nextId) {entry : Entry ω} (idle : entry.Idle)
    (quiet : entry.Quiet) : Tracing (entry :: journal) window nextId :=
  h.other (clears_idle idle journal) (congrArg Tally.sends (present_idle idle journal)) quiet

theorem control (h : Tracing journal window nextId) {f : ControlFrame} (small : f.id ≤ maxId) :
    Tracing (.left (.handed f.image) :: journal) window nextId :=
  h.note (h.transmitted.control small)
    (congrArg Tally.sends (@present_idle _ (.left (.handed f.image)) trivial journal))
    (gone_handed _ _)

/-- The frames before one of the window have smaller places, and those behind it greater ones. -/
theorem places_around (h : Tracing journal window nextId) {front back : List Outgoing}
    {f : Outgoing} (frames : window.frames = front ++ f :: back) :
    (∀ g ∈ front, g.place < f.place) ∧ ∀ g ∈ back, f.place < g.place := by
  have increasing := List.pairwise_map.mp h.increasing
  rw [frames] at increasing
  obtain ⟨-, rest, less⟩ := List.pairwise_append.mp increasing
  exact ⟨fun g inside => less g inside f List.mem_cons_self, (List.pairwise_cons.mp rest).1⟩

theorem mark (h : Tracing journal window nextId) {sent rest : List Outgoing} {f : Outgoing}
    (frames : window.frames = sent ++ f :: rest) (before : ∀ g ∈ sent, g.phase = .sent)
    (now : Nat) :
    Tracing (.left (.handed f.image) :: .going f.place :: journal)
      { window with frames := sent ++ f.markSent now :: rest } nextId := by
  obtain ⟨less, more⟩ := h.places_around frames
  have itself := h.traced f (by simp [frames])
  have order : f.place ∈ gone journal ∨ ∀ p ∈ gone journal, p < f.place := by
    by_cases none : f.attempts = 0
    · exact .inr (itself.first none)
    · exact .inl (itself.attempts.mpr (Nat.pos_of_ne_zero none))
  have same : present (.left (.handed f.image) :: .going f.place :: journal) = present journal := by
    rw [@present_idle _ (.left (.handed f.image)) trivial, @present_idle _ (.going f.place) trivial]
  refine ⟨h.transmitted.data itself.accepted order, ?_, ?_, ?_, ?_, h.blockSize⟩
  · rw [same, gone_data]
    intro g among
    rcases List.mem_append.mp among with inside | inside
    · have traced := h.traced g (by simp [frames, inside])
      have handed := traced.phase (before g inside)
      exact traced.pass (Nat.ne_of_gt (less g inside)) fun none => absurd none (Nat.ne_of_gt handed)
    · rcases List.mem_cons.mp inside with rfl | later
      · exact itself.mark now
      · have traced := h.traced g (by simp [frames, later])
        exact traced.pass (Nat.ne_of_lt (more g later)) fun _ => more g later
  · have increasing := h.increasing
    rw [frames, List.map_append, List.map_cons] at increasing
    rw [List.map_append, List.map_cons]
    exact increasing
  · rw [same]
    exact h.entered
  · rw [same]
    exact h.nextId

theorem push (h : Tracing journal window nextId) {metadata : Nat} {payload : Bytes}
    (some : payload ≠ []) (short : payload.length ≤ maxPayload) (fits : metadata ≤ maxMetadata)
    (pushed : window.push nextId (DataFrame.image ⟨nextId, metadata, payload⟩) = .some window') :
    Tracing (.accepted metadata payload :: journal) window' (FrameId.next nextId) := by
  obtain ⟨free, -, rfl⟩ := SendWindow.push_eq_some_iff.mp pushed
  have quiet := Entry.quiet_accepted (ω := ω) metadata payload
  have before : ∀ p ∈ gone journal, p < (present journal).sends.length :=
    (h.transmitted (clears journal)).lt_length
  have size : (DataFrame.image ⟨nextId, metadata, payload⟩).length ≤ window.pool.blockSize := by
    rw [DataFrame.length_image, h.blockSize]
    simp only [maxSize]
    omega
  have entering : Traced ((present journal).sends ++ [(metadata, payload)]) (gone journal)
      (window.entering nextId (DataFrame.image ⟨nextId, metadata, payload⟩)) :=
    .entering size h.entered h.nextId (Packet.valid_data some short fits (clears journal) _) before
  refine ⟨h.transmitted.other quiet, ?_, ?_, ?_, ?_, h.blockSize⟩
  · rw [present_accepted, gone_quiet quiet rfl]
    intro f among
    rcases List.mem_append.mp among with earlier | last
    · exact (h.traced f earlier).append _
    · rw [List.mem_singleton.mp last]
      exact entering
  · rw [List.map_append]
    refine List.pairwise_append.mpr ⟨h.increasing, List.pairwise_singleton _ _, ?_⟩
    intro place among last here
    obtain ⟨f, inside, rfl⟩ := List.mem_map.mp among
    rw [List.mem_singleton.mp here]
    exact Nat.lt_of_lt_of_eq (h.traced f inside).accepted.lt h.entered.symm
  · rw [present_accepted]
    simp only [Tally.accept, List.length_append, List.length_singleton, h.entered]
  · rw [present_accepted, h.nextId]
    simp only [Tally.accept, FrameId.next, FrameId.advance, List.length_append,
      List.length_singleton, Nat.mod_add_mod]

/-- The bytes of a frame of the window are the image of a data frame. -/
theorem image_eq (h : Tracing journal window nextId) {f : Outgoing} (among : f ∈ window.frames) :
    ∃ frame : DataFrame, (Frame.data frame).Valid ∧ f.image = frame.image := by
  obtain ⟨_, _, -, valid, image⟩ := (h.traced f among).accepted
  exact ⟨_, valid, image⟩

theorem split (h : Tracing journal window nextId) {released kept : List Outgoing}
    (parts : window.Parts released kept) :
    Tracing journal (window.split released kept) nextId where
  transmitted := h.transmitted
  traced f among := h.traced f (parts.inOrder.subset among)
  increasing := h.increasing.sublist (parts.inOrder.map _)
  entered := h.entered
  nextId := h.nextId
  blockSize := (SendWindow.blockSize_releaseAll _ _).trans h.blockSize

theorem rewind (h : Tracing journal window nextId) : Tracing journal window.rewind nextId where
  transmitted := h.transmitted
  traced := List.forall_mem_map.mpr fun f among => (h.traced f among).rewind
  increasing := by
    rw [SendWindow.rewind, List.map_map]
    exact h.increasing
  entered := h.entered
  nextId := h.nextId
  blockSize := h.blockSize

theorem answer (h : Tracing journal window nextId) (f : ControlFrame) :
    Tracing journal (window.answer f).2 nextId := by
  obtain ⟨released, kept, parts, -, same | same⟩ := window.answer_cases f
  · rw [same]
    exact h.split parts
  · rw [same]
    exact (h.split parts).rewind

theorem clear (h : Tracing journal window nextId) :
    Tracing (.cleared :: journal) window.clear 0 where
  transmitted := h.transmitted.other Entry.quiet_cleared
  traced := nofun
  increasing := .nil
  entered := by
    rw [present_cleared]
    rfl
  nextId := by
    rw [present_cleared]
    rfl
  blockSize := (SendWindow.blockSize_releaseAll _ _).trans h.blockSize

end Tracing

/-! ## Ids of control frames -/

/-- The ids that a link gives to its control frames fit into their bits. -/
structure Numbered (receiver : Receiver) (control : ControlQueue) : Prop where
  expected : receiver.expected < FrameId.space
  waiting : ∀ f ∈ control.waiting, f.id ≤ maxId

theorem numbered_clear (window : Nat) (control : ControlQueue) :
    Numbered { window } control.clear := ⟨Nat.zero_lt_succ _, nofun⟩

theorem ControlQueue.mem_push {q : ControlQueue} {f g : ControlFrame}
    (among : g ∈ (q.push f).waiting) : g ∈ q.waiting ∨ g = f := by
  have behind {frames : List ControlFrame} (old : frames ⊆ q.waiting) (inside : g ∈ frames ++ [f]) :
      g ∈ q.waiting ∨ g = f := by
    rcases List.mem_append.mp inside with before | last
    · exact .inl (old before)
    · exact .inr (List.mem_singleton.mp last)
  unfold ControlQueue.push at among
  split at among
  · exact behind (List.dropLast_subset _) among
  · split at among
    · exact behind (List.tail_sublist _).subset among
    · exact behind (List.Subset.refl _) among

theorem Numbered.push {receiver : Receiver} {control : ControlQueue} (h : Numbered receiver control)
    (kind : Control) {id : Nat} (small : id < FrameId.space) :
    Numbered receiver (control.push ⟨kind, id⟩) where
  expected := h.expected
  waiting := by
    intro f among
    rcases ControlQueue.mem_push among with before | rfl
    · exact h.waiting f before
    · exact Nat.le_of_lt_succ small

namespace LinkState

variable {δ υ : Type} [Driver δ]

variable {s s' : LinkState δ ω}

theorem Emission.numbered (emission : Emission s s') (h : Numbered s.receiver s.control) :
    Numbered s'.receiver s'.control := by
  cases emission with
  | @handControl f rest first =>
    refine ⟨h.expected, fun g among => h.waiting g ?_⟩
    rw [first]
    exact List.mem_cons_of_mem f among
  | handData => exact h
  | accept => exact h
  | remark => exact h

omit [Driver δ] in
theorem Reaction.numbered {happening : Framing.Happening} {calls : List Call}
    (reaction : Reaction s happening s' calls) (h : Numbered s.receiver s.control) :
    Numbered s'.receiver s'.control := by
  have same {receiver : Receiver} (expected : receiver.expected = s.receiver.expected) :
      Numbered receiver s.control := ⟨expected ▸ h.expected, h.waiting⟩
  cases reaction with
  | accept =>
    have next : Numbered s.receiver.accept s.control := ⟨FrameId.next_lt _, h.waiting⟩
    exact next.push .ackAll h.expected
  | again => exact h.push .ackAll (FrameId.prev_lt _)
  | ask =>
    have asked := @same { s.receiver with asked := some s.receiver.expected } rfl
    exact asked.push .nackId h.expected
  | pass => exact h
  | keep => exact h
  | release => exact h
  | resume => exact h
  | request => exact (numbered_clear _ s.control).push .reset (by decide)
  | response => exact h
  | lost =>
    have claimed := same (Receiver.expected_claimNack s.receiver)
    exact claimed.push .nackFraming claimed.expected

/-! ## Whatever happens -/

/-- What went out, and what is in the window. -/
def Traces (s : LinkState δ ω) : Prop :=
  Numbered s.receiver s.control ∧ Tracing s.journal s.window s.nextId

omit [Driver δ] in
theorem traces_ofConfig (config : Config) (driver : δ) :
    (LinkState.ofConfig config driver : LinkState δ ω).Traces :=
  ⟨⟨Nat.zero_lt_succ _, nofun⟩, .nothing, nofun, .nil, rfl, rfl, rfl⟩

theorem Traces.emission (h : s.Traces) (emission : Emission s s') : s'.Traces := by
  obtain ⟨numbered, tracing⟩ := h
  refine ⟨emission.numbered numbered, ?_⟩
  cases emission with
  | handControl first => exact tracing.control (numbered.waiting _ (by rw [first]; simp))
  | handData now _ frames before => exact tracing.mark frames before now
  | accept some short fits _ pushed => exact tracing.push some short fits pushed
  | remark => exact tracing.idle trivial not_false

omit [Driver δ] in
theorem Traces.reaction {happening : Framing.Happening} {calls : List Call} (h : s.Traces)
    (reaction : Reaction s happening s' calls) : s'.Traces := by
  obtain ⟨numbered, tracing⟩ := h
  refine ⟨reaction.numbered numbered, ?_⟩
  cases reaction with
  | accept => exact tracing
  | again => exact tracing
  | ask => exact tracing
  | pass => exact tracing
  | keep => exact tracing.answer _
  | release => exact (tracing.answer _).other rfl (by rw [present_released]; rfl) not_false
  | resume => exact (tracing.answer _).other rfl (by rw [present_released]; rfl) not_false
  | request => exact tracing.clear
  | response => exact tracing
  | lost => exact tracing

omit [Driver δ] in
theorem Traces.log (h : s.Traces) (call : Call) : (s.log call.action).Traces := by
  obtain ⟨numbered, tracing⟩ := h
  refine ⟨numbered, ?_⟩
  cases call with
  | event => exact tracing.idle trivial not_false
  | data => exact tracing.other rfl (by rw [Call.action, present_delivered]; rfl) not_false

omit [Driver δ] in
theorem Traces.rewind (h : s.Traces) : { s with window := s.window.rewind }.Traces :=
  ⟨h.1, h.2.rewind⟩

omit [Driver δ] in
theorem Traces.restarted (h : s.Traces) : s.restarted.Traces := by
  refine ⟨(numbered_clear _ s.control).push .reset (by decide), ?_⟩
  exact h.2.clear.other rfl (by rw [present_restarted]) not_false

theorem lasting_traces (upper : Upper υ ω) :
    Lasting upper fun _ (s : LinkState δ ω) => s.Traces where
  emission emission traces := traces.emission emission
  reaction reaction traces := traces.reaction reaction
  told call traces := traces.log call
  counted _ traces := traces
  disconnected traces := traces
  rewind traces := traces.rewind
  restarted traces := traces.restarted
  driver _ traces := traces

end LinkState

namespace Link

open Framing Simulation

variable {δ υ : Type} [Driver δ] (upper : Upper υ ω)

theorem traces_acts {config : Config} {driver : δ} {l : Link δ ω}
    (started : ofConfig config driver = .ok l) (u : υ) (acts : List (Act δ)) :
    (Link.acts upper (u, l) acts).2.state.Traces := by
  obtain ⟨-, rfl⟩ := ofConfig_eq_ok_iff.mp started
  apply (LinkState.lasting_traces upper).acts acts
  exact LinkState.traces_ofConfig config driver

/-- Whatever is done with a link, all that it hands over are the images of frames, and a framer to
which these bytes come, cut as they may be, notices just these frames and counts no flaw. In each
epoch a data frame goes out as it was accepted, every time, with the id of its place; what goes out
for the first time was accepted behind all that went out before. The frames of the window are in
the order of their places and know whether they went out. -/
theorem transmits_acts {config : Config} {driver : δ} {l : Link δ ω}
    (started : ofConfig config driver = .ok l) (u : υ) (acts : List (Act δ)) :
    let s := (Link.acts upper (u, l) acts).2.state
    (∃ frames : List Frame, (∀ f ∈ frames, f.Valid) ∧
      handed s.journal = frames.map Frame.image ∧
        ∀ capacity chunks, chunks.flatten = (handed s.journal).flatten →
          let (framer, notices) := (Framer.ofCapacity capacity).receiveChunks chunks
          notices.map Notice.happening = frames.map .frame ∧
            framer.counters.crcErrors = 0 ∧ framer.counters.resyncs = 0) ∧
      (∀ epoch, Transmits (part epoch s.journal)) ∧
      (s.window.frames.map (·.place)).Pairwise (· < ·) ∧
      (∀ f ∈ s.window.frames, Traced (present s.journal).sends (gone s.journal) f) ∧
      s.window.entered = (present s.journal).sends.length ∧
      s.nextId = (present s.journal).sends.length % FrameId.space := by
  intro s
  obtain ⟨-, tracing⟩ := traces_acts upper started u acts
  refine ⟨?_, tracing.transmitted, tracing.increasing, tracing.traced, tracing.entered,
    tracing.nextId⟩
  · obtain ⟨frames, valid, images⟩ := tracing.transmitted.handed_eq
    refine ⟨frames, valid, images, ?_⟩
    intro capacity chunks whole
    have found : scan 0 ((Framer.ofCapacity capacity).buffer ++ chunks.flatten) =
        (frames.map .frame, []) := by
      rw [whole, images]
      exact scan_images valid
    have notes := Framer.notes_receiveChunks (Framer.settled_ofCapacity capacity) found
    exact ⟨notes.happenings, notes.crcErrors, notes.resyncs⟩

/-- The second frame waits for space while the first one goes out, and the peer asks for both. -/
theorem transmits_asked :
    let l : Link Wire Remark := ⟨.ofCapacity maxSize, .ofConfig {} {}⟩
    let acts : List (Act Wire) := [.tune { budget := some 13 }, .send 7 [1], .send 7 [2], .tune {},
      .receive (ControlFrame.image ⟨.nackFraming, 0⟩), .reset, .send 9 [3]]
    let s := (Link.acts silent ((), l) acts).2.state
    let frames : List Frame := [.data ⟨0, 7, [1]⟩, .data ⟨0, 7, [1]⟩, .data ⟨1, 7, [2]⟩,
      .control ⟨.reset, 0⟩, .data ⟨0, 9, [3]⟩]
    ofConfig {} {} = .ok l ∧ handed s.journal = frames.map Frame.image ∧
      (((Framer.ofCapacity maxSize).receiveChunks (handed s.journal)).2.map Notice.happening =
        frames.map .frame) ∧
      Transmits (part 0 s.journal) := by
  intro l acts s frames
  have started : ofConfig {} {} = .ok l := ofConfig_eq_ok_iff.mpr ⟨Config.valid_default, rfl⟩
  have whole := transmits_acts silent started () acts
  have same : handed s.journal = frames.map Frame.image := by decide +kernel
  have fits : ∀ f ∈ frames, f.Valid := by decide
  rw [show (Link.acts silent ((), l) acts).2.state = s from rfl] at whole
  clear_value s
  obtain ⟨⟨found, valid, images, noticed⟩, epochs, -⟩ := whole
  obtain rfl : found = frames := by
    have read := scan_images valid
    rw [← images, same, scan_images fits] at read
    exact List.map_injective_iff.mpr (fun _ _ => Finding.frame.inj) (Prod.ext_iff.mp read).1.symm
  exact ⟨started, same, (noticed maxSize (handed s.journal) rfl).1, epochs 0⟩

end Link

end FramedLink
