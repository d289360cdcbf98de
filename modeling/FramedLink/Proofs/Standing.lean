import FramedLink.Proofs.Asking
import FramedLink.Proofs.Lossless

/-! # Pairs whose links begin anew

Two links are joined by lines on which nothing is lost, and either may begin anew, with or without
space for its request. As long as a side that has begun anew takes nothing but requests and
responses before the last response to its own requests, what each link stands for agrees with the
other. So what is delivered in an epoch of one side is a first part of what was accepted in an epoch
of the other.
-/

namespace FramedLink

open FramedLink.Journal FramedLink.LinkState
open Simulation (Side)

variable {δ υ ω : Type}

/-! ## Requests and responses -/

/-- How far a side has come with its own requests and with those of its peer. -/
structure Handshake where
  /-- How many responses the side waits for. -/
  awaiting : Nat
  /-- Its own request waits. -/
  asks : Bool
  /-- Its own response waits. -/
  answers : Bool
  /-- How many of the responses for which the peer waits have given way to newer ones. -/
  dropped : Nat := 0

namespace Handshake

def of (awaiting : Nat) (s : LinkState δ ω) : Handshake := ⟨awaiting, s.Asks, s.Answers, 0⟩

/-- The side takes a frame, and nothing but requests and responses as long as it waits for
responses. When it takes a request, its own request and its own response give way if they wait. -/
def take (h : Handshake) (item : Bytes) : Option Handshake :=
  if item = Packet.response.image then some { h with awaiting := h.awaiting - 1 }
  else if item = Packet.request.image then
    some ⟨h.awaiting - h.asks.toNat, false, true, h.dropped + h.answers.toNat⟩
  else if h.awaiting = 0 then some { h with answers := false } else none

theorem take_response (h : Handshake) :
    h.take Packet.response.image = some { h with awaiting := h.awaiting - 1 } := if_pos rfl

theorem take_request (h : Handshake) : h.take Packet.request.image =
    some ⟨h.awaiting - h.asks.toNat, false, true, h.dropped + h.answers.toNat⟩ :=
  (if_neg (by decide)).trans (if_pos rfl)

theorem take_dated {h h' : Handshake} {packet : Packet} (valid : packet.Valid) {epoch : Nat}
    (dated : packet.epoch? = some epoch) (taken : h.take packet.image = some h') :
    h.awaiting = 0 ∧ h' = { h with answers := false } := by
  have differs {other : Packet} (fits : other.Valid) (undated : other.epoch? = none)
      (same : packet.frame = other.frame → packet = other) : packet.image ≠ other.image := by
    intro image
    rw [same (Frame.image_injective valid fits image), undated] at dated
    cases dated
  have noResponse := differs Packet.valid_response rfl Packet.eq_response
  have noRequest := differs Packet.valid_request rfl Packet.eq_request
  rw [take, if_neg noResponse, if_neg noRequest] at taken
  split at taken
  · next none => exact ⟨none, (Option.some.inj taken).symm⟩
  · cases taken

end Handshake

/-- The layer above does nothing with the link when it is told of an event. -/
def Upper.Quiet (δ : Type) [Driver δ] (upper : Upper υ ω) : Prop :=
  ∀ u event (s : LinkState (Line δ) ω), (s.run (upper.onEvent u event)).2 = s

namespace LinkState

/-- The link stands for one that agrees with its peer, and a handshake says for how many responses
either of them waits. -/
structure Heeds (x : View) (way : List Packet) (old : List Item) (arrived : Nat) (h : Handshake)
    (s : LinkState (Line δ) ω) : Prop where
  stands : s.Stands { x with way, awaiting := x.awaiting - h.dropped } old arrived h.awaiting
  asks : h.asks = true ↔ s.Asks
  answers : h.answers = true → s.Answers
  dropped : h.dropped ≤ x.awaiting

variable {x : View} {rest way : List Packet} {old : List Item} {arrived awaiting : Nat}
  {h h' : Handshake} {s : LinkState (Line δ) ω}

theorem Stands.not_asks (stands : s.Stands x old arrived 0) : ¬ s.Asks := by
  obtain ⟨g, told, resets, handed, held, echoes, poses, sum, satisfies⟩ := stands
  cases poses with
  | plain same =>
    rw [same] at satisfies
    exact satisfies.not_asks
  | asking => exact absurd sum (Nat.zero_ne_add_one handed)

theorem Stands.heeds (stands : s.Stands { x with way } old arrived awaiting) :
    s.Heeds x way old arrived (.of awaiting s) :=
  ⟨stands, decide_eq_true_iff, of_decide_eq_true, Nat.zero_le _⟩

theorem Stands.respond
    (stands : s.Stands { x with way := .response :: rest } old arrived awaiting) :
    s.Stands { x with way := rest } old arrived (awaiting - 1) := by
  obtain ⟨g, told, resets, handed, held, echoes, poses, sum, satisfies⟩ := stands
  have positive : 0 < handed := (Agree.response satisfies.2.choose_spec.choose_spec.2 rfl).1
  exact ⟨g, told, resets, handed - 1, held, echoes, poses, by omega,
    satisfies.imp fun holds => (Agree.response holds rfl).2⟩

variable [Driver δ] {upper : Upper υ ω} {u : υ}

theorem raise_quiet (quiet : upper.Quiet δ) (event : Event) :
    (s.raise upper u event).2 = s.log (.raised event) := quiet u event _

/-- As long as a link waits for no response, it takes frames as what it stands for does. -/
theorem Stands.takeFrame {packet : Packet}
    (stands : s.Stands { x with way := packet :: rest } old arrived 0) (upper : Upper υ ω) (u : υ) :
    (s.takeFrame upper u packet.frame).2.Stands { x with way := rest } old arrived 0 := by
  have quiet := stands.not_asks
  obtain ⟨g, told, resets, handed, held, echoes, poses, sum, satisfies⟩ := stands
  cases poses with
  | asking asks => exact absurd asks quiet
  | plain same =>
    subst same
    obtain rfl : 0 = handed := sum
    have overlooks : Overlooks fun s : LinkState (Line δ) ω =>
        s.takeFrame upper u packet.frame := by
      cases packet.frame with
      | data f => exact takeData_above upper u f
      | control f => exact takeControl_above upper u f
    obtain ⟨newer, written, retold⟩ := overlooks.retold s
    have after := satisfies.takeFrame upper u fun _ => rfl
    rw [Nat.zero_sub, ite_self] at after
    refine ⟨_, newer ++ told, resets, 0, 0, ?_, .plain (congrArg Prod.snd (retold told)), rfl,
      after⟩
    rw [written]
    exact echoes.append newer

theorem Heeds.takeDated {packet : Packet} {epoch : Nat}
    (heeds : s.Heeds x (packet :: rest) old arrived h) (valid : packet.Valid)
    (dated : packet.epoch? = some epoch) (taken : h.take packet.image = some h')
    (upper : Upper υ ω) (u : υ) :
    (s.takeFrame upper u packet.frame).2.Heeds x rest old arrived h' := by
  obtain ⟨stands, asks, answers, dropped⟩ := heeds
  obtain ⟨none, rfl⟩ := Handshake.take_dated valid dated taken
  rw [none] at stands
  have after := Stands.takeFrame (x := { x with awaiting := x.awaiting - h.dropped }) stands upper u
  refine ⟨?_, ⟨fun true => ?_, fun true => ?_⟩, nofun, dropped⟩
  · simp only [none]
    exact after
  · exact absurd (asks.mp true) stands.not_asks
  · exact absurd true after.not_asks

theorem Heeds.takeRequest (heeds : s.Heeds x (.request :: rest) old arrived h)
    (taken : h.take Packet.request.image = some h') (quiet : upper.Quiet δ) :
    (s.takeFrame upper u Packet.request.frame).2.Heeds x rest old arrived h' := by
  obtain ⟨stands, asks, answers, dropped⟩ := heeds
  rw [Handshake.take_request, Option.some.injEq] at taken
  subst taken
  obtain ⟨fewer, asked⟩ :=
    Stands.asked (x := { x with awaiting := x.awaiting - h.dropped }) stands asks answers
  have waiting : (s.takeFrame upper u Packet.request.frame).2.control.waiting =
      [⟨.reset, resetResponse⟩] := by
    rw [← waiting_asked s]
    change (raise upper _ (s.asked.raise upper u .reset).2 .connected).2.control.waiting = _
    rw [raise_quiet quiet, raise_quiet quiet]
    rfl
  refine ⟨?_, ⟨nofun, fun asks => ?_⟩, fun _ => ?_, ?_⟩
  · have after :=
      (asked.raise upper u .reset).raise upper (s.asked.raise upper u .reset).1 .connected
    simp only [Nat.sub_sub] at after
    exact after
  · rw [Asks, waiting] at asks
    exact absurd asks (by decide)
  · rw [Answers, waiting]
    exact List.mem_singleton_self _
  · change h.answers.toNat ≤ x.awaiting - h.dropped at fewer
    change h.dropped + h.answers.toNat ≤ x.awaiting
    omega

theorem Heeds.takeResponse (heeds : s.Heeds x (.response :: rest) old arrived h)
    (taken : h.take Packet.response.image = some h') (quiet : upper.Quiet δ) :
    (s.takeFrame upper u Packet.response.frame).2.Heeds x rest old arrived h' := by
  obtain ⟨stands, asks, answers, dropped⟩ := heeds
  let y : View := { x with awaiting := x.awaiting - h.dropped }
  rw [Handshake.take_response, Option.some.injEq] at taken
  subst taken
  have before : s.Stands { y with way := rest } old arrived (h.awaiting - 1) :=
    Stands.respond (x := y) stands
  have silent : { s with disconnected := false }.Stands { y with way := rest } old arrived
      (h.awaiting - 1) := before.same rfl rfl rfl rfl rfl rfl rfl rfl
  have control : (s.takeFrame upper u Packet.response.frame).2.control = s.control := by
    change (raise upper u { s with disconnected := false } .connected).2.control = _
    rw [raise_quiet quiet]
    rfl
  refine ⟨silent.raise upper u .connected, ?_, ?_, dropped⟩
  · rw [Asks, control]
    exact asks
  · rw [Answers, control]
    exact answers

theorem Heeds.takeFrame {packet : Packet}
    (heeds : s.Heeds x (packet :: rest) old arrived h) (valid : packet.Valid)
    (taken : h.take packet.image = some h') (quiet : upper.Quiet δ) :
    (s.takeFrame upper u packet.frame).2.Heeds x rest old arrived h' := by
  cases packet with
  | data => exact heeds.takeDated valid rfl taken upper u
  | answer => exact heeds.takeDated valid rfl taken upper u
  | request => exact heeds.takeRequest taken quiet
  | response => exact heeds.takeResponse taken quiet

/-- With all frames that it takes, a link goes on standing for one that agrees with its peer. -/
theorem Heeds.take {taken : List Packet} {notices : List Framing.Notice}
    (heeds : s.Heeds x (taken ++ rest) old arrived h) (valid : ∀ packet ∈ taken, packet.Valid)
    (all : (taken.map Packet.image).foldlM Handshake.take h = some h')
    (found : notices.filterMap Framing.Notice.frame? = taken.map Packet.frame)
    (sound : ∀ notice ∈ notices, notice.happening ≠ .lost) (quiet : upper.Quiet δ) :
    (notices.foldl (takeNotice upper) (u, s)).2.Heeds x rest old arrived h' := by
  induction notices generalizing s u taken h with
  | nil =>
    obtain rfl := List.map_eq_nil_iff.mp found.symm
    obtain rfl : h = h' := Option.some.inj all
    exact heeds
  | cons notice others ih =>
    have later := fun other among => sound other (List.mem_cons_of_mem notice among)
    have here := sound notice List.mem_cons_self
    obtain ⟨counters, happening⟩ := notice
    cases happening with
    | lost => exact absurd rfl here
    | frame f =>
      rw [List.filterMap_cons] at found
      cases taken with
      | nil => cases found
      | cons packet behind =>
        obtain ⟨rfl, matching⟩ := List.cons.inj found
        rw [List.map_cons, List.foldlM_cons] at all
        obtain ⟨first, took, all⟩ := Option.bind_eq_some_iff.mp all
        -- The counters of the framer are no part of what the link stands for.
        have counted : { s with status := s.status.withCounters counters }.Heeds x
            (packet :: (behind ++ rest)) old arrived h :=
          ⟨heeds.stands.same rfl rfl rfl rfl rfl rfl rfl rfl, heeds.asks, heeds.answers,
            heeds.dropped⟩
        have after := counted.takeFrame (u := u) (valid packet List.mem_cons_self) took quiet
        rw [List.foldl_cons]
        have valid := fun other among => valid other (List.mem_cons_of_mem packet among)
        cases same : packet.frame <;> rw [same] at after <;> exact ih after valid all matching later

theorem Heeds.receive {l : Link (Line δ) ω} {taken : List Packet} {chunk : Bytes}
    (heeds : l.state.Heeds x (taken ++ rest) old arrived h)
    (valid : ∀ packet ∈ taken, packet.Valid)
    (all : (taken.map Packet.image).foldlM Handshake.take h = some h')
    (found : (l.framer.receive chunk).2.filterMap Framing.Notice.frame? = taken.map Packet.frame)
    (sound : ∀ notice ∈ (l.framer.receive chunk).2, notice.happening ≠ .lost)
    (quiet : upper.Quiet δ) (u : υ) :
    (l.receive upper u chunk).2.state.Stands
        { x with way := rest, awaiting := x.awaiting - h'.dropped } old arrived h'.awaiting ∧
      h'.dropped ≤ x.awaiting := by
  have after := heeds.take (u := u) valid all found sound quiet
  let state := ((l.framer.receive chunk).2.foldl (takeNotice upper) (u, l.state)).2
  have counted : { state with
      status := state.status.withCounters (l.framer.receive chunk).1.counters }.Stands
        { x with way := rest, awaiting := x.awaiting - h'.dropped } old arrived h'.awaiting :=
    after.stands.same rfl rfl rfl rfl rfl rfl rfl rfl
  exact ⟨counted.flush, after.dropped⟩

end LinkState

/-! ## Pairs -/

namespace Pair

/-- The pair with other links behind the framers. -/
def posing (p : Pair δ υ ω) (g : Side → LinkState (Line δ) ω) : Pair δ υ ω := fun side =>
  { link := { framer := (p side).link.framer, state := g side }, upper := (p side).upper }

/-- What a link stands for, as far as the link itself is concerned. -/
def Posed (s g : LinkState (Line δ) ω) (awaiting handed : Nat) : Prop :=
  ∃ told held, Echoes told s.journal ∧ s.Poses g told held ∧ awaiting = handed + held

/-- The links that the two links of a pair stand for agree with each other. -/
def Accords (awaiting : Side → Nat) (p : Pair δ υ ω) : Prop :=
  ∃ g resets handed items waiting, (p.posing g).Consistent resets handed items waiting ∧
    ∀ side, Posed (p side).link.state (g side) (awaiting side) (handed side)

variable {awaiting : Side → Nat} {p : Pair δ υ ω}

/-- The links of a pair stand for links that agree when one of them does, and what the other one
stands for is known. -/
theorem accords_of_stands (side peer : Side) (opposite : peer = side.other) (old : List Item)
    (arrived handed : Nat) {g : LinkState (Line δ) ω} {carried : List Item} {queued : List Packet}
    (posed : Posed (p peer).link.state g (awaiting peer) handed)
    (books : Books g.journal g.window g.nextId g.receiver.expected g.status.tx.dataFrames)
    (carries : Carries carried g.driver.arrived g.driver g.control.waiting carried queued)
    (before : Follows (p peer).link.framer old arrived)
    (follows : Follows (p side).link.framer carried g.driver.arrived)
    (stands : (p side).link.state.Stands (.of handed g.journal (packets carried ++ queued)) old
      arrived (awaiting side)) : p.Accords awaiting := by
  subst opposite
  obtain ⟨g', told, resets, handed', held, echoes, poses, sum, satisfies⟩ := stands
  have other := Side.other_ne side
  let both (one : Side) : LinkState (Line δ) ω := if one = side then g' else g
  let counts (one : Side) : Nat := if one = side then handed' else handed
  have here : (p.posing both side).link.state = g' := if_pos rfl
  have there : (p.posing both side.other).link.state = g := if_neg other
  have journal : (p.posing both side.other).journal = g.journal := congrArg LinkState.journal there
  rw [← there] at books carries follows
  have agrees : (p.posing both side).link.state.Satisfies old arrived fun journal way =>
      Agrees resets
        (.of (counts side.other) (p.posing both side.other).journal (packets carried ++ queued))
        (counts side) journal way ∧ True := by
    rw [here, journal]
    simp only [counts, if_true, if_neg other]
    exact satisfies.imp fun holds => ⟨holds, trivial⟩
  obtain ⟨items, waiting, consistent, -⟩ :=
    consistent_of_satisfies side side.other rfl old books carries before follows agrees
  refine ⟨both, resets, counts, items, waiting, consistent, fun one => ?_⟩
  rcases Side.eq_or_other_eq side one with rfl | rfl
  · simp only [both, counts, if_true]
    exact ⟨told, held, echoes, poses, sum⟩
  · simp only [both, counts, if_neg other]
    exact posed

theorem Posed.stands {s g : LinkState (Line δ) ω} {x : View} {old : List Item}
    {arrived resets awaiting handed : Nat} (h : Posed s g awaiting handed)
    (satisfies : g.Satisfies old arrived (Agrees resets x handed)) :
    s.Stands x old arrived awaiting := by
  obtain ⟨told, held, echoes, poses, sum⟩ := h
  exact ⟨g, told, resets, handed, held, echoes, poses, sum, satisfies⟩

theorem Posed.line {s g : LinkState (Line δ) ω} {awaiting handed : Nat}
    (h : Posed s g awaiting handed) :
    g.driver.items = s.driver.items ∧ g.driver.arrived = s.driver.arrived := by
  obtain ⟨told, held, -, poses, -⟩ := h
  cases poses with
  | plain same =>
    rw [same]
    exact ⟨rfl, rfl⟩
  | asking _ items arrived => exact ⟨items, arrived⟩

theorem Accords.change (h : p.Accords awaiting) (side : Side)
    (f : Station δ υ ω → Station δ υ ω) {count : Nat}
    (framer : ∀ items, Follows (p side).link.framer items (p side.other).line.arrived →
      Follows (f (p side)).link.framer items (p side.other).line.arrived)
    (stands : ∀ {x old arrived}, (p side).link.state.Stands x old arrived (awaiting side) →
      (f (p side)).link.state.Stands x old arrived count) :
    (p.change side f).Accords fun one => if one = side then count else awaiting one := by
  obtain ⟨g, resets, handed, items, waiting, consistent, posed⟩ := h
  have other := Side.other_ne side
  have here := p.change_same side f
  have there := p.change_of_ne other f
  have arrived : (p side.other).line.arrived = (g side.other).driver.arrived :=
    (posed side.other).line.2.symm
  rw [arrived] at framer
  have before : Follows (p side.other).link.framer (items side) (g side).driver.arrived :=
    consistent.follows side
  have follows : Follows (p side).link.framer (items side.other) (g side.other).driver.arrived :=
    consistent.framer side
  have stood : (p side).link.state.Stands
      (.of (handed side.other) (g side.other).journal
        (packets (items side.other) ++ waiting side.other))
      (items side) (g side).driver.arrived (awaiting side) :=
    (posed side).stands (consistent.satisfies side)
  have other' : Posed (p side.other).link.state (g side.other)
      (if side.other = side then count else awaiting side.other) (handed side.other) := by
    rw [if_neg other]
    exact posed side.other
  have stands' := stands stood
  have follows' := framer _ follows
  rw [← there] at other' before
  rw [← here] at stands' follows'
  refine accords_of_stands side side.other rfl (items side) _ _ other'
    (consistent.books side.other) (consistent.carries side.other) before follows' ?_
  rw [if_pos rfl]
  exact stands'

theorem Accords.act (h : p.Accords awaiting) (side : Side) (f : Station δ υ ω → Station δ υ ω)
    (framer : (f (p side)).link.framer = (p side).link.framer)
    (stands : ∀ {x old arrived}, (p side).link.state.Stands x old arrived (awaiting side) →
      (f (p side)).link.state.Stands x old arrived (awaiting side)) :
    (p.change side f).Accords awaiting := by
  have after := h.change side f (fun items follows => framer ▸ follows) stands
  have same : (fun one => if one = side then awaiting side else awaiting one) = awaiting := by
    funext one
    split
    · next one => rw [one]
    · rfl
  rwa [same] at after

theorem Posed.reline {s g : LinkState (Line δ) ω} {count handed : Nat} (h : Posed s g count handed)
    (items : List Bytes) (arrived : Nat) :
    Posed { s with driver := { s.driver with items, arrived } }
      { g with driver := { g.driver with items, arrived } } count handed := by
  obtain ⟨told, held, echoes, poses, sum⟩ := h
  refine ⟨told, held, echoes, ?_, sum⟩
  cases poses with
  | plain same =>
    subst same
    exact .plain rfl
  | asking asks _ _ anew books => exact .asking asks rfl rfl anew books

theorem Posed.relieve {s g : LinkState (Line δ) ω} {count handed dropped : Nat}
    (h : Posed s g count handed) (fewer : dropped ≤ handed) :
    Posed s g (count - dropped) (handed - dropped) := by
  obtain ⟨told, held, echoes, poses, sum⟩ := h
  exact ⟨told, held, echoes, poses, by omega⟩

variable [Driver δ]

/-- A link begins anew between two frames. -/
theorem Accords.reset (h : p.Accords awaiting) (side : Side) {f : Station δ υ ω → Station δ υ ω}
    (link : (f (p side)).link = (p side).link.reset) (unopened : (p side.other).line.arrived = 0) :
    (p.change side f).Accords fun one =>
      if one = side then
        if (p side).link.state.Asks then awaiting side else awaiting side + 1
      else awaiting one := by
  refine h.change side f (fun items _ => ?_) fun stands => ?_
  · rw [link, unopened]
    exact Link.follows_reset _ items
  · rw [link]
    exact stands.restarted.flush

/-- How far a side has come when the next bytes of its peer have arrived. There is none if a frame
other than a request or a response comes as long as the side waits for responses. -/
def handshake (p : Pair δ υ ω) (awaiting : Side → Nat) (source : Side) (count : Nat) :
    Option Handshake :=
  ((p source).line.completed count).foldlM Handshake.take
    (.of (awaiting source.other) (p source.other).link.state)

omit [Driver δ] in
private theorem handshake_eq {source : Side} {items front back : List Item} {count n : Nat}
    (carried : (p source).line.items = items.map Item.bytes) (clear : Item.Clear items)
    (completes : Completes items ((p source).line.arrived + count) front back n) :
    p.handshake awaiting source count = ((packets front).map Packet.image).foldlM Handshake.take
      (.of (awaiting source.other) (p source.other).link.state) := by
  have completed : (p source).line.completed count = front.map Item.bytes := by
    rw [Line.completed, carried, completes.complete]
  have first : Item.Clear front := fun item among =>
    clear item (completes.split ▸ List.mem_append_left _ among)
  rw [handshake, completed, first.bytes_eq]

/-- The next bytes of a line on which nothing was lost arrive. As long as the side that takes them
waits for responses, it takes nothing but requests and responses. -/
theorem Accords.deliver (h : p.Accords awaiting) (uppers : Side → Upper υ ω) (source : Side)
    (quiet : (uppers source.other).Quiet δ) {count : Nat} (framed : (p source).link.state.Framed)
    {after : Handshake} (heard : p.handshake awaiting source count = some after) :
    (p.deliver uppers source count).Accords fun side =>
      if side = source.other then after.awaiting else awaiting side - after.dropped := by
  obtain ⟨g, resets, handed, items, waiting, consistent, posed⟩ := h
  have carries := consistent.carries source
  have carried : (p source).line.items = (items source).map Item.bytes :=
    (posed source).line.1.symm.trans carries.carried
  have begun : (p source).line.arrived = (g source).driver.arrived := (posed source).line.2.symm
  have before : Follows (p source.other).link.framer (items source) (p source).line.arrived :=
    begun ▸ consistent.follows source
  have clear := framed.clear carried carries.valid
  have sound := before.lossless carries.valid clear count
  obtain ⟨front, back, n, completes, found, follows⟩ := before.receive carries.valid count
  have taken := take_eq carried completes
  rw [handshake_eq carried clear completes] at heard
  have valid : ∀ packet ∈ packets front, packet.Valid := Item.valid_packets fun item among =>
    carries.valid item (completes.split ▸ List.mem_append_left _ among)
  have stood : (p source.other).link.state.Stands
      (.of (handed source) (g source).journal (packets front ++ (packets back ++ waiting source)))
      (items source.other) (g source.other).driver.arrived (awaiting source.other) := by
    have satisfies := consistent.satisfies source.other
    rw [Side.other_other, completes.split, packets_append, List.append_assoc] at satisfies
    exact (posed source.other).stands satisfies
  have other := Side.other_ne source
  unfold Pair.deliver
  rw [taken]
  simp only
  -- The bytes that arrive no longer matter: the notices they lead to are known.
  generalize (((items source).map Item.bytes).flatten.drop (p source).line.arrived).take count =
    chunk at found follows sound ⊢
  let x : View := .of (handed source) (g source).journal (packets back ++ waiting source)
  have heeds : (p source.other).link.state.Heeds x
      (packets front ++ (packets back ++ waiting source)) (items source.other)
      (g source.other).driver.arrived (.of (awaiting source.other) (p source.other).link.state) :=
    stood.heeds
  obtain ⟨stands, fewer⟩ := heeds.receive valid heard found sound quiet (p source.other).upper
  have posed' := ((posed source).reline (back.map Item.bytes) n).relieve fewer
  have behind : Follows (p source).link.framer (items source.other)
      (g source.other).driver.arrived := consistent.framer source
  refine accords_of_stands source.other source (Side.other_other source).symm (items source.other)
    (g source.other).driver.arrived (handed source - after.dropped)
    (g := { g source with
      driver := { (g source).driver with items := back.map Item.bytes, arrived := n } })
    ?_ (consistent.books source) (completes.carries carries) ?_ ?_ ?_
  all_goals simp only [change_same, change_of_ne _ other, change_of_ne _ other.symm, if_true,
    if_neg other.symm]
  · exact posed'
  · exact behind
  · exact follows
  · exact stands

omit [Driver δ] in
theorem accords_start {config : Side → Config} {driver : Side → δ} {upper : Side → υ}
    (started : start config driver upper = .ok p) : p.Accords fun _ => 0 :=
  ⟨fun side => (p side).link.state, 0, fun _ => 0, _, _, consistent_start started,
    fun side => ⟨(p side).journal, 0, .refl _, .plain rfl, rfl⟩⟩

omit [Driver δ] in
/-- What is delivered at a side in an epoch is a first part of what the other side accepted in some
epoch. -/
theorem Accords.relays (h : p.Accords awaiting) (side : Side) (epoch : Nat) :
    ∃ epoch', (ofEpoch epoch (p side).journal).deliveries <+:
      (ofEpoch epoch' (p side.other).journal).sends := by
  obtain ⟨g, resets, handed, items, waiting, consistent, posed⟩ := h
  obtain ⟨_, _, echoes, poses, -⟩ := posed side
  obtain ⟨_, _, echoes', poses', -⟩ := posed side.other
  obtain ⟨told, delivered⟩ := poses.deliveries_eq echoes epoch
  obtain ⟨epoch', accepted⟩ := poses'.ofEpoch_eq echoes' told
  have delivers := (consistent.agree side).forth.delivers told
  refine ⟨epoch', ?_⟩
  change (ofEpoch epoch (p side).link.state.journal).deliveries <+:
    (ofEpoch epoch' (p side.other).link.state.journal).sends
  rw [← delivered, accepted]
  exact delivers

end Pair

end FramedLink
