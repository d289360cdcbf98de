import Mathlib.Data.List.InsertIdx
import FramedLink.Proofs.Receiving

/-! # Pairs that agree

The two links of a pair agree with each other, each framer has what has arrived of the line to it,
and every move keeps it so.
-/

namespace FramedLink

open FramedLink.Journal FramedLink.LinkState
open Simulation (Side)

variable {δ υ ω : Type}

theorem Side.other_other (side : Side) : side.other.other = side := by
  cases side <;> rfl

theorem Side.other_ne (side : Side) : side.other ≠ side := by
  cases side <;> exact nofun

theorem Side.eq_or_other_eq (side one : Side) : side = one ∨ side.other = one := by
  cases side <;> cases one <;> first | exact .inl rfl | exact .inr rfl

/-! ## What has arrived -/

private theorem Item.kept_zero (item : Item) : item.kept 0 = [] := by
  cases item with
  | packet packet => simp [Item.kept]
  | noise => rfl

theorem Item.keptOf_zero (items : List Item) : Item.keptOf items 0 = [] := by
  cases items with
  | nil => rfl
  | cons item rest => exact item.kept_zero

theorem Follows.of_head {f : Framing.Framer} {items items' : List Item} {arrived : Nat}
    (h : Follows f items arrived) (same : arrived = 0 ∨ items'.head? = items.head?) :
    Follows f items' arrived := by
  obtain ⟨settled, opened, buffer⟩ := h
  rcases same with rfl | same
  · exact ⟨settled, .inl rfl, by rw [buffer, Item.keptOf_zero, Item.keptOf_zero]⟩
  · refine ⟨settled, ?_, ?_⟩
    · rw [Item.Open, same]
      exact opened
    · rw [buffer]
      cases items <;> cases items' <;> cases same <;> rfl

theorem Follows.extend {f : Framing.Framer} {items items' : List Item} {arrived : Nat}
    (h : Follows f items arrived) (behind : items <+: items') : Follows f items' arrived := by
  obtain ⟨more, rfl⟩ := behind
  apply h.of_head
  rcases h.opened with rfl | ⟨item, first, -⟩
  · exact .inl rfl
  · right
    cases items with
    | nil => cases first
    | cons => rfl

/-! ## The invariant -/

/-- What a pair carries and how its two sides agree. -/
structure Pair.Consistent (resets : Nat) (awaiting : Side → Nat) (p : Pair δ υ ω)
    (items : Side → List Item) (waiting : Side → List Packet) : Prop where
  books : ∀ side, Books (p side).journal (p side).link.state.window (p side).link.state.nextId
    (p side).link.state.receiver.expected (p side).link.state.status.tx.dataFrames
  carries : ∀ side, Carries (items side) (p side).line.arrived (p side).line
    (p side).link.state.control.waiting (items side) (waiting side)
  follows : ∀ side, Follows (p side.other).link.framer (items side) (p side).line.arrived
  agree : ∀ side, Agree resets
    (.of (awaiting side.other) (p side.other).journal
      (packets (items side.other) ++ waiting side.other))
    (.of (awaiting side) (p side).journal (packets (items side) ++ waiting side))

/-- Two links that have agreed since they began, apart from `resets` resets. -/
def Pair.Agreed (resets : Nat) (awaiting : Side → Nat) (p : Pair δ υ ω) : Prop :=
  ∃ items waiting, p.Consistent resets awaiting items waiting

namespace Pair

variable {resets : Nat} {awaiting : Side → Nat} {p : Pair δ υ ω} {items : Side → List Item}
  {waiting : Side → List Packet}

theorem Consistent.satisfies (h : p.Consistent resets awaiting items waiting) (side : Side) :
    (p side).link.state.Satisfies (items side) (p side).line.arrived
      (Agrees resets
        (.of (awaiting side.other) (p side.other).journal
          (packets (items side.other) ++ waiting side.other))
        (awaiting side)) :=
  ⟨h.books side, items side, waiting side, h.carries side, h.agree side⟩

/-- A pair agrees when one of its links does, and what is known of the other one is true. What
more holds of the one holds of what it carries. -/
theorem consistent_of_satisfies (side peer : Side) (opposite : peer = side.other)
    (old : List Item) {carried : List Item} {arrived : Nat} {queued : List Packet} {X : Property ω}
    (books : Books (p peer).journal (p peer).link.state.window (p peer).link.state.nextId
      (p peer).link.state.receiver.expected (p peer).link.state.status.tx.dataFrames)
    (carries : Carries carried (p peer).line.arrived (p peer).line
      (p peer).link.state.control.waiting carried queued)
    (before : Follows (p peer).link.framer old arrived)
    (follows : Follows (p side).link.framer carried (p peer).line.arrived)
    (agrees : (p side).link.state.Satisfies old arrived fun journal way =>
      Agrees resets (.of (awaiting peer) (p peer).journal (packets carried ++ queued))
        (awaiting side) journal way ∧ X journal way) :
    ∃ items waiting, p.Consistent resets awaiting items waiting ∧ items peer = carried ∧
      waiting peer = queued ∧ (p side).line.arrived = arrived ∧
      X (p side).journal (packets (items side) ++ waiting side) := by
  subst opposite
  obtain ⟨books', carried', queued', carries', agree, more⟩ := agrees
  have same : (p side).line.arrived = arrived := carries'.same
  have other := Side.other_ne side
  have more' : X (p side).journal (packets (if side = side then carried' else carried) ++
      if side = side then queued' else queued) := by
    simp only [if_true]
    exact more
  refine ⟨fun one => if one = side then carried' else carried,
    fun one => if one = side then queued' else queued, ?_, if_neg other, if_neg other, same, more'⟩
  exact {
    books := fun one => by
      rcases Side.eq_or_other_eq side one with rfl | rfl
      · exact books'
      · exact books
    carries := fun one => by
      rcases Side.eq_or_other_eq side one with rfl | rfl
      · simp only [if_true]
        exact { carries' with behind := List.prefix_refl _, same := rfl }
      · simp only [if_neg other]
        exact carries
    follows := fun one => by
      rcases Side.eq_or_other_eq side one with rfl | rfl
      · simp only [if_true, same]
        exact before.extend carries'.behind
      · simp only [if_neg other, Side.other_other]
        exact follows
    agree := fun one => by
      rcases Side.eq_or_other_eq side one with rfl | rfl
      · simp only [if_true, if_neg other]
        exact agree
      · simp only [if_true, if_neg other, Side.other_other]
        exact Agree.symm agree }

theorem Consistent.change (h : p.Consistent resets awaiting items waiting) (side : Side)
    (f : Station δ υ ω → Station δ υ ω) {resets' : Nat} {awaiting' : Side → Nat} {X : Property ω}
    (same : awaiting' side.other = awaiting side.other)
    (framer : Follows (f (p side)).link.framer (items side.other) (p side.other).line.arrived)
    (agrees : (f (p side)).link.state.Satisfies (items side) (p side).line.arrived
      fun journal way =>
        Agrees resets'
          (.of (awaiting side.other) (p side.other).journal
            (packets (items side.other) ++ waiting side.other))
          (awaiting' side) journal way ∧ X journal way) :
    ∃ items' waiting', (p.change side f).Consistent resets' awaiting' items' waiting' ∧
      items' side.other = items side.other ∧ waiting' side.other = waiting side.other ∧
      (f (p side)).line.arrived = (p side).line.arrived ∧
      X (f (p side)).journal (packets (items' side) ++ waiting' side) := by
  have here := p.change_same side f
  have there := p.change_of_ne (Side.other_ne side) f
  rw [← here]
  refine consistent_of_satisfies side side.other rfl (items side) (there ▸ h.books side.other)
    (there ▸ h.carries side.other) (there ▸ h.follows side) ?_ ?_
  · rw [here, there]
    exact framer
  · rw [here, there, same]
    exact agrees

theorem Consistent.agreed (h : p.Consistent resets awaiting items waiting) (side : Side)
    (f : Station δ υ ω → Station δ υ ω)
    (framer : Follows (f (p side)).link.framer (items side.other) (p side.other).line.arrived)
    (agrees : (f (p side)).link.state.Satisfies (items side) (p side).line.arrived
      (Agrees resets
        (.of (awaiting side.other) (p side.other).journal
          (packets (items side.other) ++ waiting side.other))
        (awaiting side))) :
    (p.change side f).Agreed resets awaiting := by
  obtain ⟨items', waiting', consistent, -⟩ :=
    h.change (X := fun _ _ => True) side f rfl framer (agrees.imp fun holds => ⟨holds, trivial⟩)
  exact ⟨items', waiting', consistent⟩

theorem Consistent.clears_eq_zero (h : p.Consistent 0 awaiting items waiting) (side : Side) :
    clears (p side).journal = 0 := (Nat.add_eq_zero_iff.mp (h.agree side).epochs.2).1

/-! ## Moves -/

theorem Consistent.framer (h : p.Consistent resets awaiting items waiting) (side : Side) :
    Follows (p side).link.framer (items side.other) (p side.other).line.arrived := by
  have follows := h.follows side.other
  rwa [Side.other_other] at follows

theorem Consistent.tune (h : p.Consistent resets awaiting items waiting) (side : Side)
    (driver : δ) :
    (p.change side fun s => s.setLine { s.line with driver }).Agreed resets awaiting := by
  apply h.agreed side _ (h.framer side)
  obtain ⟨books, items, waiting, carries, agree⟩ := h.satisfies side
  exact ⟨books, items, waiting,
    ⟨carries.carried, carries.behind, carries.same, carries.queue, carries.valid, carries.answers⟩,
    agree⟩

theorem Consistent.reline (h : p.Consistent resets awaiting items waiting) (side : Side)
    {line : Line δ} (left : List Item) (carried : line.items = left.map Item.bytes)
    (valid : ∀ item ∈ left, item.Valid)
    (follows : Follows (p side.other).link.framer left line.arrived)
    (thinned : Thinned (packets (items side) ++ waiting side) (packets left ++ waiting side)) :
    (p.change side fun s => s.setLine line).Agreed resets awaiting := by
  have here := p.change_same side fun s => s.setLine line
  have there := p.change_of_ne (Side.other_ne side) fun s => s.setLine line
  have carries := h.carries side
  have agrees : ((p side).setLine line).link.state.Satisfies left line.arrived fun journal way =>
      Agrees resets
        (.of (awaiting side.other) (p side.other).journal
          (packets (items side.other) ++ waiting side.other))
        (awaiting side) journal way ∧ True :=
    ⟨h.books side, left, waiting side,
      ⟨carried, List.prefix_refl _, rfl, carries.queue, valid, carries.answers⟩,
      Agree.thin (h.agree side) thinned, trivial⟩
  rw [← here] at agrees
  obtain ⟨items', waiting', consistent, -⟩ :=
    consistent_of_satisfies (X := fun _ _ => True) side side.other rfl left
      (there ▸ h.books side.other) (there ▸ h.carries side.other) (there ▸ follows)
      (by rw [here, there]; exact h.framer side) (there ▸ agrees)
  exact ⟨items', waiting', consistent⟩

theorem Consistent.requests_eq_zero (h : p.Consistent resets (fun _ => 0) items waiting)
    (side : Side) : requests (packets (items side) ++ waiting side) = 0 := by
  have due := (h.agree side).back.due
  simp only [View.of] at due
  omega

theorem Consistent.lose (h : p.Consistent resets (fun _ => 0) items waiting) (source : Side)
    (place : Nat) :
    (p.change source fun s => s.setLine (s.line.lose place)).Agreed resets (fun _ => 0) := by
  have carries := h.carries source
  change (p.change source fun s => s.setLine ((p source).line.lose place)).Agreed _ _
  unfold Line.lose
  split
  · next ahead =>
    have sublist : ((items source).eraseIdx place).Sublist (items source) :=
      List.eraseIdx_sublist _ _
    refine h.reline source ((items source).eraseIdx place) ?_
      (fun item among => carries.valid item (sublist.subset among)) ?_ ⟨?_, ?_⟩
    · simp only [carries.carried, List.eraseIdx_map]
    · refine (h.follows source).of_head ?_
      simp only [Line.isAhead, Bool.or_eq_true, decide_eq_true_eq] at ahead
      refine ahead.imp id fun behind => ?_
      rw [List.head?_eq_getElem?, List.head?_eq_getElem?, List.getElem?_eraseIdx, if_pos behind]
    · exact (sublist.filterMap _).append_right _
    · have none := h.requests_eq_zero source
      rw [none, requests_append]
      rw [requests_append] at none
      have fewer : requests (packets ((items source).eraseIdx place)) ≤
          requests (packets (items source)) := (sublist.filterMap _).count_le _
      omega
  · exact h.reline source _ carries.carried carries.valid (h.follows source) (.refl _)

private theorem packets_insertIdx (items : List Item) (place : Nat) (noise : Bytes) :
    packets (items.insertIdx place (.noise noise)) = packets items := by
  induction items generalizing place with
  | nil => cases place <;> rfl
  | cons item rest ih =>
    cases place with
    | zero => rfl
    | succ place =>
      cases item with
      | packet packet => exact congrArg (packet :: ·) (ih place)
      | noise => exact ih place

theorem Consistent.disturb (h : p.Consistent resets awaiting items waiting) (source : Side)
    (place : Nat) {noise : Bytes} (clean : Frame.start1 ∉ noise) :
    (p.change source fun s => s.setLine (s.line.disturb place noise)).Agreed resets awaiting := by
  have carries := h.carries source
  change (p.change source fun s => s.setLine ((p source).line.disturb place noise)).Agreed _ _
  unfold Line.disturb
  split
  · next ahead =>
    refine h.reline source ((items source).insertIdx place (.noise noise)) ?_ ?_ ?_ ?_
    · simp only [carries.carried]
      exact (List.map_insertIdx Item.bytes (items source) place (.noise noise)).symm
    · intro item among
      by_cases within : place ≤ (items source).length
      · rcases (List.mem_insertIdx within).mp among with rfl | before
        · exact clean
        · exact carries.valid item before
      · rw [List.insertIdx_of_length_lt (Nat.lt_of_not_le within)] at among
        exact carries.valid item among
    · apply (h.follows source).of_head
      simp only [Line.isAhead, Bool.or_eq_true, decide_eq_true_eq] at ahead
      refine ahead.imp id fun behind => ?_
      rw [List.head?_eq_getElem?, List.head?_eq_getElem?, List.getElem?_insertIdx_of_lt behind]
    · rw [packets_insertIdx]
      exact .refl _
  · exact h.reline source _ carries.carried carries.valid (h.follows source) (.refl _)

variable [Driver δ]

theorem Consistent.send (h : p.Consistent resets awaiting items waiting) (side : Side)
    (metadata : Nat) (payload : Bytes) :
    (p.change side fun s => { s with link := (s.link.send metadata payload).2 }).Agreed
      resets awaiting :=
  h.agreed side _ (h.framer side) ((h.satisfies side).send agrees_tolerant metadata payload)

theorem Consistent.process (h : p.Consistent resets awaiting items waiting)
    (uppers : Side → Upper υ ω) (side : Side) :
    (p.process uppers side).Agreed resets awaiting :=
  h.agreed side _ (h.framer side)
    (((h.satisfies side).flush agrees_tolerant.toSteady).checkTimeout agrees_tolerant.toSteady
      (agrees_tolerant.keeps δ (uppers side) _ _))

omit [Driver δ] in
theorem take_eq {line : Line δ} {items front back : List Item} {count n : Nat}
    (carried : line.items = items.map Item.bytes)
    (completes : Completes items (line.arrived + count) front back n) :
    line.take count = (((items.map Item.bytes).flatten.drop line.arrived).take count,
      { line with items := back.map Item.bytes, arrived := n }) := by
  simp only [Line.take, carried, completes.beyond]

/-- The next bytes of a line arrive, and the link that takes what they complete goes on agreeing
with its peer. What more holds of it then and is steady holds when it has handed over its
answers. -/
theorem Consistent.taking (h : p.Consistent resets awaiting items waiting)
    (uppers : Side → Upper υ ω) (source : Side) (count : Nat) :
    ∃ front back n, ∃ notices : List Framing.Notice,
      Completes (items source) ((p source).line.arrived + count) front back n ∧
      notices.filterMap Framing.Notice.frame? = (packets front).map Packet.frame ∧
      ∀ {awaiting' : Nat} {X : Property ω}, Steady X →
        (notices.foldl (takeNotice (uppers source.other))
          ((p source.other).upper, (p source.other).link.state)).2.Satisfies (items source.other)
            (p source.other).line.arrived
            (fun journal way =>
              Agrees resets
                (.of (awaiting source) (p source).journal (packets back ++ waiting source))
                awaiting' journal way ∧ X journal way) →
        ∃ items' waiting', (p.deliver uppers source count).Consistent resets
            (fun side => if side = source.other then awaiting' else awaiting side) items' waiting' ∧
          items' source = back ∧ waiting' source = waiting source ∧
          (p.deliver uppers source count source.other).line.arrived =
            (p source.other).line.arrived ∧
          X (p.deliver uppers source count source.other).journal
            (packets (items' source.other) ++ waiting' source.other) := by
  have carries := h.carries source
  obtain ⟨front, back, n, completes, found, follows⟩ :=
    (h.follows source).receive carries.valid count
  refine ⟨front, back, n, _, completes, found, fun {awaiting' X} steady after => ?_⟩
  have taken := take_eq carries.carried completes
  have other := Side.other_ne source
  have around := Side.other_other source
  unfold Pair.deliver
  rw [taken]
  simp only
  -- The bytes that arrive no longer matter: the notices they lead to are known.
  generalize bytes : (((items source).map Item.bytes).flatten.drop
    (p source).line.arrived).take count = chunk at found follows after ⊢
  refine consistent_of_satisfies source.other source around.symm (items source.other) ?_ ?_ ?_ ?_ ?_
  all_goals simp only [change_same, change_of_ne _ other, change_of_ne _ other.symm, if_true,
    if_neg other.symm]
  · exact h.books source
  · exact completes.carries carries
  · exact h.framer source
  · exact follows
  · exact Satisfies.flush (agrees_tolerant.toSteady.and steady) after

/-- The next bytes of a line arrive. The packets that they complete are taken by a side that takes
nothing but responses as long as it waits for any. -/
theorem Consistent.deliver (h : p.Consistent resets awaiting items waiting)
    (uppers : Side → Upper υ ω) (source : Side) (count : Nat)
    (patient : ∀ front back n,
      Completes (items source) ((p source).line.arrived + count) front back n →
        Patient (awaiting source.other) (packets front)) :
    ∃ front back n, Completes (items source) ((p source).line.arrived + count) front back n ∧
      (p.deliver uppers source count).Agreed resets fun side =>
        if side = source.other then awaiting source.other - responses (packets front)
        else awaiting side := by
  obtain ⟨front, back, n, notices, completes, found, becomes⟩ := h.taking uppers source count
  have way : packets (items source) ++ waiting source =
      packets front ++ (packets back ++ waiting source) := by
    rw [completes.split, packets_append, List.append_assoc]
  have before := h.satisfies source.other
  rw [Side.other_other, way] at before
  have after := Satisfies.takeAgreeing (uppers source.other) (p source.other).upper
    (x := .of (awaiting source) (p source).journal (packets back ++ waiting source))
    found before (patient front back n completes)
  obtain ⟨items', waiting', consistent, -⟩ := becomes (X := fun _ _ => True)
    ⟨fun _ _ => trivial, fun _ _ => trivial⟩ (after.imp fun holds => ⟨holds, trivial⟩)
  exact ⟨front, back, n, completes, items', waiting', consistent⟩

/-! ## Links that are not begun anew -/

private theorem patient_zero (packets : List Packet) : Patient 0 packets := by
  induction packets with
  | nil => trivial
  | cons packet rest ih => exact ⟨fun _ => rfl, by simpa using ih⟩

omit [Driver δ] in
theorem start_eq_ok_iff {config : Side → Config} {driver : Side → δ} {upper : Side → υ} :
    start config driver upper = .ok p ↔
      (∀ side, (config side).Valid) ∧ p = fresh config driver upper := by
  simp only [← Config.validate_eq_ok_iff]
  unfold start Link.ofConfig
  constructor
  · intro started
    cases fitA : (config .a).validate with
    | error fault =>
      rw [fitA] at started
      cases started
    | ok =>
      cases fitB : (config .b).validate with
      | error fault =>
        rw [fitA, fitB] at started
        cases started
      | ok =>
        rw [fitA, fitB] at started
        cases started
        exact ⟨fun side => by cases side <;> assumption, funext fun side => by cases side <;> rfl⟩
  · rintro ⟨fit, rfl⟩
    rw [fit .a, fit .b]
    exact congrArg Except.ok (funext fun side => by cases side <;> rfl)

omit [Driver δ] in
theorem consistent_start {config : Side → Config} {driver : Side → δ} {upper : Side → υ}
    (started : start config driver upper = .ok p) :
    p.Consistent 0 (fun _ => 0) (fun _ => []) (fun _ => []) := by
  obtain ⟨valid, rfl⟩ := start_eq_ok_iff.mp started
  have toward : Toward (.of 0 ([] : List (Entry ω)) []) (.of 0 ([] : List (Entry ω)) []) :=
    ⟨Nat.le_refl _, fun _ => trivial, nofun, .nil, fun _ => List.prefix_refl _,
      fun _ => Nat.le_refl _, fun _ => Nat.zero_le _, nofun, nofun⟩
  exact {
    books := fun side =>
      ⟨⟨.nil, .nil, Nat.zero_le _, (valid side).sendWindow.2, rfl⟩, Nat.le_refl _, rfl, rfl, rfl⟩
    carries := fun _ => ⟨rfl, List.prefix_refl _, rfl, rfl, nofun, nofun⟩
    follows := fun _ => ⟨Framing.Framer.settled_ofCapacity _, .inl rfl, rfl⟩
    agree := fun _ => ⟨toward, toward, ⟨rfl, rfl⟩, fun _ => rfl⟩ }

end Pair

/-- No link begins anew, and no frame can begin in the noise. -/
def Move.Plain : Move δ → Prop
  | .reset _ => False
  | .disturb _ _ noise => Frame.start1 ∉ noise
  | _ => True

instance : (move : Move δ) → Decidable move.Plain
  | .reset _ => .isFalse id
  | .disturb _ _ noise => inferInstanceAs (Decidable (Frame.start1 ∉ noise))
  | .send .. | .process _ | .tune .. | .deliver .. | .lose .. => .isTrue trivial

namespace Pair

variable {p : Pair δ υ ω} [Driver δ]

theorem Agreed.step (uppers : Side → Upper υ ω) (h : p.Agreed 0 fun _ => 0) {move : Move δ}
    (plain : move.Plain) : (p.step uppers move).Agreed 0 fun _ => 0 := by
  obtain ⟨items, waiting, consistent⟩ := h
  cases move with
  | send side metadata payload => exact consistent.send side metadata payload
  | process side => exact consistent.process uppers side
  | tune side driver => exact consistent.tune side driver
  | deliver source count =>
    obtain ⟨front, -, -, -, agreed⟩ :=
      consistent.deliver uppers source count fun front _ _ _ => patient_zero (packets front)
    simp only [Nat.zero_sub, ite_self] at agreed
    exact agreed
  | lose source place => exact consistent.lose source place
  | disturb source place noise => exact consistent.disturb source place plain
  | reset => cases plain

/-- Two links agree whatever happens to them, as long as neither is begun anew. -/
theorem Agreed.run (uppers : Side → Upper υ ω) (h : p.Agreed 0 fun _ => 0) {moves : List (Move δ)}
    (plain : ∀ move ∈ moves, move.Plain) : (p.run uppers moves).Agreed 0 fun _ => 0 := by
  induction moves generalizing p with
  | nil => exact h
  | cons move rest ih =>
    exact ih (h.step uppers (plain move List.mem_cons_self))
      fun later among => plain later (List.mem_cons_of_mem _ among)

end Pair

end FramedLink
