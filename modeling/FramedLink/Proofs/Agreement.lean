import FramedLink.Proofs.Taking

/-! # Agreement

What two links tell of each other, with all that is on its way between them. The invariant is that
everything on its way is true and in order: a data frame is the one that was accepted at its place,
an answer acknowledges no more than was delivered, and what is delivered in an epoch is a first part
of what the other side accepted in the epoch of the same number. Requests and responses separate
the epochs. A side that has begun anew waits for the responses to its requests; as long as it takes
nothing else before them, what it takes belongs to its own epoch.
-/

namespace FramedLink

open FramedLink.Journal

structure View where
  /-- How many of its requests are not answered. -/
  awaiting : Nat
  /-- How often its link has begun anew of its own accord. -/
  restarts : Nat
  epoch : Nat
  tally : Nat → Tally
  /-- The packets on their way from it, oldest first. -/
  way : List Packet

namespace View

/-- What a journal tells of a side. -/
def of {ω : Type} (awaiting : Nat) (journal : List (Entry ω)) (way : List Packet) : View :=
  ⟨awaiting, Journal.restarts journal, clears journal, fun epoch => ofEpoch epoch journal, way⟩

def present (v : View) : Tally := v.tally v.epoch

end View

def Packet.epoch? : Packet → Option Nat
  | data epoch _ _ _ => some epoch
  | answer _ epoch _ => some epoch
  | request | response => none

/-- Behind the last response, every packet is of the epoch that its sender is in, or of an earlier
one for each request behind the packet. -/
def Stamped (epoch : Nat) : List Packet → Prop
  | [] => True
  | packet :: rest =>
    (responses rest = 0 → ∀ e ∈ packet.epoch?, e + requests rest = epoch) ∧ Stamped epoch rest

/-- What a packet tells is true of its sender. -/
def View.Knows (v : View) : Packet → Prop
  | .data epoch place metadata payload =>
    (v.tally epoch).sends[place]? = some (metadata, payload) ∧ epoch ≤ v.epoch
  | .answer _ epoch count => count ≤ (v.tally epoch).deliveries.length ∧ epoch ≤ v.epoch
  | .request | .response => True

/-- Of two packets in a row, the places do not fall back further than the window is wide, and the
answers do not fall back at all. -/
def InOrder : Packet → Packet → Prop
  | .data epoch place _ _, .data epoch' place' _ _ =>
    epoch = epoch' → place < place' + FrameId.reach
  | .answer _ epoch count, .answer _ epoch' count' => epoch = epoch' → count ≤ count'
  | _, _ => True

/-- What is on its way from `x` to `y` is true and in order. -/
structure Toward (x y : View) : Prop where
  /-- Every request that is on its way, or the response to it, is awaited. -/
  due : requests x.way + responses y.way ≤ x.awaiting
  stamped : y.awaiting = requests y.way + responses x.way → Stamped x.epoch x.way
  known : ∀ packet ∈ x.way, x.Knows packet
  ordered : x.way.Pairwise InOrder
  /-- What is delivered in an epoch is a first part of what was accepted in it. -/
  delivers : ∀ epoch, (y.tally epoch).deliveries <+: (x.tally epoch).sends
  /-- What is released in an epoch was delivered in it. -/
  releases : ∀ epoch, (x.tally epoch).releases ≤ (y.tally epoch).deliveries.length
  spread : ∀ epoch, (x.tally epoch).sends.length ≤ (x.tally epoch).releases + FrameId.reach
  near : ∀ {place metadata payload}, .data y.epoch place metadata payload ∈ x.way →
    y.present.deliveries.length ≤ place + FrameId.reach
  fresh : ∀ {kind count}, .answer kind y.epoch count ∈ x.way → y.present.releases ≤ count

/-- Two sides agree after so many times that one of them has begun anew with a request. -/
structure Agree (resets : Nat) (x y : View) : Prop where
  forth : Toward x y
  back : Toward y x
  /-- A side has begun an epoch for each of the times but for those of which the request is on its
  way to it. -/
  epochs : x.epoch + requests y.way = resets ∧ y.epoch + requests x.way = resets
  restarts : resets = 0 → x.restarts + y.restarts = 0

theorem Agree.symm {resets : Nat} {x y : View} (h : Agree resets x y) : Agree resets y x :=
  ⟨h.back, h.forth, h.epochs.symm, fun none => (Nat.add_comm _ _).trans (h.restarts none)⟩

/-! ## Stamps -/

private theorem Thinned.responses_le {way way' : List Packet} (h : Thinned way way') :
    responses way' ≤ responses way := h.sublist.count_le _

private theorem stamped_append {epoch : Nat} {way : List Packet} {packet : Packet}
    (h : Stamped epoch way) (now : packet.epoch? = some epoch) :
    Stamped epoch (way ++ [packet]) := by
  have noRequest : packet ≠ .request := by
    rintro rfl
    cases now
  have noResponse : packet ≠ .response := by
    rintro rfl
    cases now
  induction way with
  | nil =>
    refine ⟨fun _ e same => ?_, trivial⟩
    rw [now] at same
    cases same
    rfl
  | cons first rest ih =>
    refine ⟨fun none e same => ?_, ih h.2⟩
    have before := h.1 (by simpa [noResponse] using none) e same
    simpa [noRequest] using before

private theorem stamped_request {epoch : Nat} {way : List Packet} (h : Stamped epoch way) :
    Stamped (epoch + 1) (way ++ [.request]) := by
  induction way with
  | nil => exact ⟨fun _ _ same => (by cases same), trivial⟩
  | cons first rest ih =>
    refine ⟨fun none e same => ?_, ih h.2⟩
    have before := h.1 (by simpa using none) e same
    change e + requests (rest ++ [.request]) = _
    rw [requests_append, ← Nat.add_assoc, before]
    rfl

theorem stamped_response (epoch : Nat) (way : List Packet) :
    Stamped epoch (way ++ [.response]) := by
  induction way with
  | nil => exact ⟨fun _ _ same => (by cases same), trivial⟩
  | cons first rest ih => exact ⟨fun none => by simp at none, ih⟩

/-- Packets that give way leave the stamps right, as long as no response is among them. -/
theorem Thinned.stamped {epoch : Nat} {way way' : List Packet} (h : Thinned way way')
    (same : responses way' = responses way) (stamped : Stamped epoch way) :
    Stamped epoch way' := by
  obtain ⟨sublist, asking⟩ := h
  induction sublist with
  | slnil => trivial
  | @cons rest' rest packet sublist ih =>
    have fewer : requests rest' ≤ requests rest := sublist.count_le _
    have fewer' : responses rest' ≤ responses rest := sublist.count_le _
    simp only [requests_cons, responses_cons] at same asking
    exact ih (by omega) stamped.2 (by omega)
  | @cons_cons rest' rest packet sublist ih =>
    simp only [requests_cons, responses_cons, Nat.add_right_cancel_iff] at same asking
    refine ⟨fun none e now => ?_, ih same stamped.2 asking⟩
    rw [asking]
    exact stamped.1 (same ▸ none) e now

/-! ## Journals -/

namespace View

def tell (v : View) (more : Tally → Tally) : View :=
  { v with tally := fun epoch => if v.epoch = epoch then more (v.tally epoch) else v.tally epoch }

theorem tally_tell (v : View) (more : Tally → Tally) (epoch : Nat) :
    (v.tell more).tally epoch =
      if v.epoch = epoch then more (v.tally epoch) else v.tally epoch := rfl

theorem present_tell (v : View) (more : Tally → Tally) :
    (v.tell more).present = more v.present := if_pos rfl

variable {ω : Type} (awaiting : Nat) (journal : List (Entry ω)) (way : List Packet)

theorem of_idle {entry : Entry ω} (idle : entry.Idle) :
    of awaiting (entry :: journal) way = of awaiting journal way := by
  simp only [of, restarts_idle idle, clears_idle idle, ofEpoch_idle idle]

theorem of_accepted (metadata : Nat) (payload : Bytes) :
    of awaiting (.accepted metadata payload :: journal) way =
      (of awaiting journal way).tell (·.accept metadata payload) := by
  simp only [of, tell, ofEpoch_cons, clears, Journal.restarts]
  rfl

theorem of_delivered (metadata : Nat) (payload : Bytes) :
    of awaiting (.left (.delivered metadata payload) :: journal) way =
      (of awaiting journal way).tell (·.deliver metadata payload) := by
  simp only [of, tell, ofEpoch_cons, clears, Journal.restarts]
  rfl

theorem of_released (count : Nat) :
    of awaiting (.released count :: journal) way =
      (of awaiting journal way).tell (·.release count) := by
  simp only [of, tell, ofEpoch_cons, clears, Journal.restarts]
  rfl

theorem of_cleared :
    of awaiting (.cleared :: journal) way =
      { of awaiting journal way with epoch := clears journal + 1 } := by
  simp only [of, clears, Journal.restarts, ofEpoch_cleared]

theorem of_restarted :
    of awaiting (.restarted :: journal) way =
      { of awaiting journal way with restarts := Journal.restarts journal + 1 } := by
  simp only [of, clears, Journal.restarts, ofEpoch_restarted]

end View

/-! ## What a side does of its own accord -/

theorem View.Knows.mono {v v' : View} {packet : Packet} (h : v.Knows packet)
    (sends : ∀ epoch, (v.tally epoch).sends <+: (v'.tally epoch).sends)
    (deliveries : ∀ epoch, (v.tally epoch).deliveries.length ≤
      (v'.tally epoch).deliveries.length)
    (later : v.epoch ≤ v'.epoch) : v'.Knows packet := by
  cases packet with
  | data epoch place metadata payload =>
    obtain ⟨more, append⟩ := sends epoch
    refine ⟨?_, Nat.le_trans h.2 later⟩
    rw [← append]
    exact (List.getElem?_append_left (List.getElem?_eq_some_iff.mp h.1).1).trans h.1
  | answer kind epoch count =>
    exact ⟨Nat.le_trans h.1 (deliveries epoch), Nat.le_trans h.2 later⟩
  | request | response => trivial

section Acting

variable {resets : Nat} {x y : View}

theorem Toward.join {y' : View} {packet : Packet} (h : Toward y x)
    (way : y'.way = y.way ++ [packet]) (tally : y'.tally = y.tally) (later : y.epoch ≤ y'.epoch)
    (due : requests y'.way + responses x.way ≤ y'.awaiting)
    (stamped : x.awaiting = requests x.way + responses y'.way → Stamped y'.epoch y'.way)
    (knows : y'.Knows packet) (after : ∀ before ∈ y.way, InOrder before packet)
    (near : ∀ {place metadata payload}, packet = .data x.epoch place metadata payload →
      x.present.deliveries.length ≤ place + FrameId.reach)
    (fresh : ∀ {kind count}, packet = .answer kind x.epoch count →
      x.present.releases ≤ count) : Toward y' x := by
  have among {other : Packet} (inside : other ∈ y'.way) : other ∈ y.way ∨ packet = other := by
    rw [way] at inside
    rcases List.mem_append.mp inside with before | last
    · exact .inl before
    · exact .inr (List.mem_singleton.mp last).symm
  exact {
    due := due
    stamped := stamped
    known := fun other inside => by
      rcases among inside with before | rfl
      · exact (h.known other before).mono (fun _ => tally ▸ List.prefix_refl _)
          (fun _ => tally ▸ Nat.le_refl _) later
      · exact knows
    ordered := by
      rw [way]
      refine List.pairwise_append.mpr ⟨h.ordered, List.pairwise_singleton _ _, ?_⟩
      intro before inside other last
      rw [List.mem_singleton.mp last]
      exact after before inside
    delivers := tally ▸ h.delivers
    releases := tally ▸ h.releases
    spread := tally ▸ h.spread
    near := fun inside => (among inside).elim h.near near
    fresh := fun inside => (among inside).elim h.fresh fresh }

variable (h : Agree resets x y)
include h

theorem Agree.join {packet : Packet} (now : packet.epoch? = some y.epoch) (knows : y.Knows packet)
    (after : ∀ before ∈ y.way, InOrder before packet)
    (near : ∀ {place metadata payload}, packet = .data x.epoch place metadata payload →
      x.present.deliveries.length ≤ place + FrameId.reach)
    (fresh : ∀ {kind count}, packet = .answer kind x.epoch count →
      x.present.releases ≤ count) :
    Agree resets x { y with way := y.way ++ [packet] } := by
  have noRequest : packet ≠ .request := by
    rintro rfl
    cases now
  have noResponse : packet ≠ .response := by
    rintro rfl
    cases now
  have same : requests (y.way ++ [packet]) = requests y.way := by
    simp [noRequest]
  have same' : responses (y.way ++ [packet]) = responses y.way := by
    simp [noResponse]
  obtain ⟨forth, back, epochs, restarts⟩ := h
  exact {
    forth := { forth with
      due := same' ▸ forth.due
      stamped := same ▸ forth.stamped }
    back := back.join rfl rfl (Nat.le_refl _) (same ▸ back.due)
      (fun all => stamped_append (back.stamped (same' ▸ all)) now) knows after near fresh
    epochs := same ▸ epochs
    restarts }

theorem Agree.accept (metadata : Nat) (payload : Bytes)
    (room : y.present.sends.length < y.present.releases + FrameId.reach) :
    Agree resets x (y.tell (·.accept metadata payload)) := by
  obtain ⟨forth, back, epochs, restarts⟩ := h
  have deliveries (epoch) : ((y.tell (·.accept metadata payload)).tally epoch).deliveries =
      (y.tally epoch).deliveries := by
    rw [View.tally_tell]
    split <;> rfl
  have releases (epoch) : ((y.tell (·.accept metadata payload)).tally epoch).releases =
      (y.tally epoch).releases := by
    rw [View.tally_tell]
    split <;> rfl
  have sends (epoch) : (y.tally epoch).sends <+:
      ((y.tell (·.accept metadata payload)).tally epoch).sends := by
    rw [View.tally_tell]
    split
    · exact List.prefix_append _ _
    · exact List.prefix_refl _
  have spread (epoch) : ((y.tell (·.accept metadata payload)).tally epoch).sends.length ≤
      ((y.tell (·.accept metadata payload)).tally epoch).releases + FrameId.reach := by
    rw [releases, View.tally_tell]
    split
    · next same =>
      subst same
      simp only [Tally.accept, List.length_append, List.length_singleton]
      exact room
    · exact back.spread epoch
  exact {
    forth := { forth with
      delivers := fun epoch => deliveries epoch ▸ forth.delivers epoch
      releases := fun epoch => deliveries epoch ▸ forth.releases epoch
      near := fun among => by
        rw [View.present, deliveries]
        exact forth.near among
      fresh := fun among => by
        rw [View.present, releases]
        exact forth.fresh among }
    back := { back with
      known := fun packet among => (back.known packet among).mono sends
        (fun epoch => Nat.le_of_eq (congrArg List.length (deliveries epoch).symm)) (Nat.le_refl _)
      delivers := fun epoch => (back.delivers epoch).trans (sends epoch)
      releases := fun epoch => releases epoch ▸ back.releases epoch
      spread }
    epochs
    restarts }

theorem Agree.hand {place metadata : Nat} {payload : Bytes}
    (here : y.present.sends[place]? = some (metadata, payload))
    (outstanding : y.present.releases ≤ place) :
    Agree resets x { y with way := y.way ++ [.data y.epoch place metadata payload] } := by
  have spread : y.present.sends.length ≤ y.present.releases + FrameId.reach :=
    h.back.spread y.epoch
  refine h.join rfl ⟨here, Nat.le_refl _⟩ (fun before inside => ?_) (fun same => ?_) nofun
  · cases before with
    | data epoch place' metadata' payload' =>
      rintro rfl
      have earlier := (List.getElem?_eq_some_iff.mp (h.back.known _ inside).1).1
      change place' < y.present.sends.length at earlier
      omega
    | answer | request | response => trivial
  · obtain ⟨epoch, rfl, -, -⟩ := Packet.data.inj same
    have most := (h.back.delivers y.epoch).length_le
    rw [View.present, ← epoch]
    change _ ≤ y.present.sends.length at most
    omega

theorem Agree.thin {way : List Packet} (thinned : Thinned y.way way) :
    Agree resets x { y with way } := by
  obtain ⟨forth, back, epochs, restarts⟩ := h
  have due := forth.due
  have fewer := thinned.responses_le
  have less : requests x.way + responses way ≤ x.awaiting := by omega
  have stamped (all : x.awaiting = requests x.way + responses way) : Stamped y.epoch way :=
    thinned.stamped (by omega) (back.stamped (by omega))
  exact {
    forth := { forth with
      due := less
      stamped := thinned.asking ▸ forth.stamped }
    back := { back with
      due := thinned.asking ▸ back.due
      stamped
      known := fun packet among => back.known packet (thinned.sublist.subset among)
      ordered := back.ordered.sublist thinned.sublist
      near := fun among => back.near (thinned.sublist.subset among)
      fresh := fun among => back.fresh (thinned.sublist.subset among) }
    epochs := thinned.asking ▸ epochs
    restarts }

theorem Agree.say (kind : Answer) :
    Agree resets x { y with
      way := y.way ++ [.answer kind y.epoch y.present.deliveries.length] } := by
  refine h.join rfl ⟨Nat.le_refl _, Nat.le_refl _⟩ (fun before inside => ?_) nofun
    fun same => ?_
  · cases before with
    | answer kind' epoch count =>
      rintro rfl
      exact (h.back.known _ inside).1
    | data | request | response => trivial
  · obtain ⟨-, epoch, rfl⟩ := Packet.answer.inj same
    rw [View.present, ← epoch]
    exact h.forth.releases y.epoch

/-! ## What a side takes -/

theorem Agree.pass {packet : Packet} {rest : List Packet} (next : x.way = packet :: rest)
    (noRequest : packet ≠ .request) : Agree resets { x with way := rest } y := by
  refine (h.symm.thin ⟨?_, ?_⟩).symm
  · rw [next]
    exact List.sublist_cons_self _ _
  · rw [next, requests_cons, if_neg noRequest]
    rfl

/-- What a side takes while it waits for no response is of its own epoch. -/
theorem Agree.epoch_eq {packet : Packet} {rest : List Packet} (next : x.way = packet :: rest)
    (ready : y.awaiting = 0) {epoch : Nat} (ofEpoch : packet.epoch? = some epoch) :
    epoch = y.epoch := by
  have due := h.back.due
  have stamped := h.forth.stamped (by omega)
  have epochs := h.epochs
  rw [next, responses_cons] at due
  rw [next] at stamped epochs
  have noRequest : packet ≠ .request := by
    rintro rfl
    cases ofEpoch
  -- No response is on its way, since none is awaited: the stamp counts the requests behind.
  have stamp := stamped.1 (by omega) epoch ofEpoch
  simp only [requests_cons, if_neg noRequest] at epochs
  omega

theorem Agree.deliver {metadata : Nat} {payload : Bytes}
    (here : (x.tally y.epoch).sends[y.present.deliveries.length]? = some (metadata, payload))
    (near : ∀ {place metadata payload}, .data y.epoch place metadata payload ∈ x.way →
      y.present.deliveries.length < place + FrameId.reach) :
    Agree resets x (y.tell (·.deliver metadata payload)) := by
  obtain ⟨forth, back, epochs, restarts⟩ := h
  have sends (epoch) : ((y.tell (·.deliver metadata payload)).tally epoch).sends =
      (y.tally epoch).sends := by
    rw [View.tally_tell]
    split <;> rfl
  have releases (epoch) : ((y.tell (·.deliver metadata payload)).tally epoch).releases =
      (y.tally epoch).releases := by
    rw [View.tally_tell]
    split <;> rfl
  have deliveries (epoch) : (y.tally epoch).deliveries.length ≤
      ((y.tell (·.deliver metadata payload)).tally epoch).deliveries.length := by
    rw [View.tally_tell]
    split
    · simp [Tally.deliver]
    · exact Nat.le_refl _
  have delivers (epoch) : ((y.tell (·.deliver metadata payload)).tally epoch).deliveries <+:
      (x.tally epoch).sends := by
    rw [View.tally_tell]
    split
    · next same =>
      subst same
      obtain ⟨more, append⟩ := forth.delivers y.epoch
      have first : more[0]? = some (metadata, payload) := by
        rw [View.present, ← append, List.getElem?_append_right (Nat.le_refl _),
          Nat.sub_self] at here
        exact here
      cases more with
      | nil => cases first
      | cons head others =>
        cases first
        exact ⟨others, by rw [← append]; simp [Tally.deliver]⟩
    · exact forth.delivers epoch
  exact {
    forth := { forth with
      delivers
      releases := fun epoch => Nat.le_trans (forth.releases epoch) (deliveries epoch)
      near := fun among => by
        rw [View.present_tell]
        simp only [Tally.deliver, List.length_append, List.length_singleton]
        exact near among
      fresh := fun among => by
        rw [View.present, releases]
        exact forth.fresh among }
    back := { back with
      known := fun packet among => (back.known packet among).mono
        (fun epoch => sends epoch ▸ List.prefix_refl _) deliveries (Nat.le_refl _)
      delivers := fun epoch => sends epoch ▸ back.delivers epoch
      releases := fun epoch => releases epoch ▸ back.releases epoch
      spread := fun epoch => sends epoch ▸ releases epoch ▸ back.spread epoch }
    epochs
    restarts }

theorem Agree.release {count : Nat}
    (most : y.present.releases + count ≤ (x.tally y.epoch).deliveries.length)
    (fresh : ∀ {kind later}, .answer kind y.epoch later ∈ x.way →
      y.present.releases + count ≤ later) :
    Agree resets x (y.tell (·.release count)) := by
  obtain ⟨forth, back, epochs, restarts⟩ := h
  have sends (epoch) : ((y.tell (·.release count)).tally epoch).sends =
      (y.tally epoch).sends := by
    rw [View.tally_tell]
    split <;> rfl
  have deliveries (epoch) : ((y.tell (·.release count)).tally epoch).deliveries =
      (y.tally epoch).deliveries := by
    rw [View.tally_tell]
    split <;> rfl
  have releases (epoch) : ((y.tell (·.release count)).tally epoch).releases ≤
      (x.tally epoch).deliveries.length := by
    rw [View.tally_tell]
    split
    · next same =>
      subst same
      exact most
    · exact back.releases epoch
  have spread (epoch) : ((y.tell (·.release count)).tally epoch).sends.length ≤
      ((y.tell (·.release count)).tally epoch).releases + FrameId.reach := by
    have spread := back.spread epoch
    rw [sends, View.tally_tell]
    split
    · simp only [Tally.release]
      omega
    · exact spread
  exact {
    forth := { forth with
      delivers := fun epoch => deliveries epoch ▸ forth.delivers epoch
      releases := fun epoch => deliveries epoch ▸ forth.releases epoch
      near := fun among => by
        rw [View.present, deliveries]
        exact forth.near among
      fresh := fun among => by
        rw [View.present_tell]
        exact fresh among }
    back := { back with
      known := fun packet among => (back.known packet among).mono
        (fun epoch => sends epoch ▸ List.prefix_refl _)
        (fun epoch => Nat.le_of_eq (congrArg List.length (deliveries epoch).symm)) (Nat.le_refl _)
      delivers := fun epoch => sends epoch ▸ back.delivers epoch
      releases
      spread }
    epochs
    restarts }

/-! ## Beginning anew -/

theorem Agree.request {rest : List Packet} (next : x.way = .request :: rest)
    (new : y.tally (y.epoch + 1) = {}) :
    Agree resets { x with way := rest }
      { y with epoch := y.epoch + 1, way := y.way ++ [.response] } := by
  obtain ⟨forth, back, epochs, restarts⟩ := h
  have due := forth.due
  have due' := back.due
  have stamped := forth.stamped
  have known := forth.known
  have ordered := forth.ordered
  rw [next] at due due' stamped known ordered epochs
  simp only [requests_cons, responses_cons, if_true, reduceCtorEq, if_false] at due due' epochs
  have asking : requests (y.way ++ [.response]) = requests y.way := by simp
  have answering : responses (y.way ++ [.response]) = responses y.way + 1 := by simp
  have left : requests rest + responses (y.way ++ [.response]) ≤ x.awaiting := by omega
  have begun : y.epoch + 1 + requests rest = resets := by omega
  -- The request that is taken was awaited, so not everything awaited is on its way any more.
  have before : Toward y { x with way := rest } :=
    { back with
      due := due'
      stamped := fun all => by
        simp only at all
        omega }
  exact {
    forth := { forth with
      due := left
      stamped := fun all => (stamped (asking ▸ all)).2
      known := fun packet among => known packet (List.mem_cons_of_mem _ among)
      ordered := (List.pairwise_cons.mp ordered).2
      near := fun _ => by
        rw [View.present, new]
        exact Nat.zero_le _
      fresh := fun _ => by
        rw [View.present, new]
        exact Nat.zero_le _ }
    back := before.join rfl rfl (Nat.le_succ _) (asking ▸ due') (fun _ => stamped_response _ _)
      trivial (fun packet _ => by cases packet <;> trivial) nofun nofun
    epochs := ⟨asking ▸ epochs.1, begun⟩
    restarts }

theorem Agree.response {rest : List Packet} (next : x.way = .response :: rest) :
    0 < y.awaiting ∧
      Agree resets { x with way := rest } { y with awaiting := y.awaiting - 1 } := by
  obtain ⟨forth, back, epochs, restarts⟩ := h
  have due := forth.due
  have due' := back.due
  have stamped := forth.stamped
  have stamped' := back.stamped
  have known := forth.known
  have ordered := forth.ordered
  have near := @forth.near
  have fresh := @forth.fresh
  rw [next] at due due' stamped stamped' known ordered epochs near fresh
  simp only [requests_cons, responses_cons, if_true, reduceCtorEq, if_false, Nat.add_zero]
    at due due' stamped stamped' epochs
  have less : requests y.way + responses rest ≤ y.awaiting - 1 := by omega
  exact ⟨by omega, {
    forth := { forth with
      due
      stamped := fun all => (stamped (by simp only at all; omega)).2
      known := fun packet among => known packet (List.mem_cons_of_mem _ among)
      ordered := (List.pairwise_cons.mp ordered).2
      near := fun among => near (List.mem_cons_of_mem _ among)
      fresh := fun among => fresh (List.mem_cons_of_mem _ among) }
    back := { back with
      due := less
      stamped := stamped' }
    epochs
    restarts }⟩

theorem Agree.reset (new : y.tally (y.epoch + 1) = {}) :
    Agree (resets + 1) x
      { y with
        awaiting := y.awaiting + 1
        restarts := y.restarts + 1
        epoch := y.epoch + 1
        way := y.way ++ [.request] } := by
  obtain ⟨forth, back, ⟨ours, theirs⟩, -⟩ := h
  have due := back.due
  have asking : requests (y.way ++ [.request]) = requests y.way + 1 := by simp
  have answering : responses (y.way ++ [.request]) = responses y.way := by simp
  have more : requests (y.way ++ [.request]) + responses x.way ≤ y.awaiting + 1 := by omega
  have ours' : x.epoch + requests (y.way ++ [.request]) = resets + 1 := by omega
  have theirs' : y.epoch + 1 + requests x.way = resets + 1 := by omega
  exact {
    forth := { forth with
      due := answering ▸ forth.due
      stamped := fun all => forth.stamped (by simp only [asking] at all; omega)
      near := fun _ => by
        rw [View.present, new]
        exact Nat.zero_le _
      fresh := fun _ => by
        rw [View.present, new]
        exact Nat.zero_le _ }
    back := back.join rfl rfl (Nat.le_succ _) more
      (fun all => stamped_request (back.stamped (answering ▸ all))) trivial
      (fun packet _ => by cases packet <;> trivial) nofun nofun
    epochs := ⟨ours', theirs'⟩
    restarts := nofun }

/-- Behind a response nothing is left of the time before, so that no more responses are awaited than
there are on the way. -/
theorem Agree.await {way : List Packet} {awaiting : Nat} (last : y.way = way ++ [.response])
    (due : requests x.way + responses y.way ≤ awaiting) : Agree resets { x with awaiting } y where
  forth := { h.forth with due }
  back := { h.back with stamped := fun _ => last ▸ stamped_response _ _ }
  epochs := h.epochs
  restarts := h.restarts

/-- After a request, it no longer matters how often a link has begun anew of its own accord. -/
theorem Agree.recount (begun : 0 < resets) (restarts : Nat) :
    Agree resets x { y with restarts } where
  forth := { h.forth with }
  back := { h.back with }
  epochs := h.epochs
  restarts := fun none => absurd none (Nat.ne_of_gt begun)

end Acting

end FramedLink
