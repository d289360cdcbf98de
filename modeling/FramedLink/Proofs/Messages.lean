import Mathlib.Algebra.Ring.Nat
import Mathlib.Data.List.Basic
import FramedLink.Proofs.Hearing
import FramedLink.Proofs.Posting
import FramedLink.Proofs.Reassembling
import FramedLink.Simulation.Application

/-! # Messages from end to end

The frames of a message are routed to one port, which puts the message together again. So when an
endpoint is given the frames of the messages of another one, in their order and nothing else, every
message port gets exactly the messages for its port that are not too long, and the frames for ports
without a handler are counted.
-/

namespace FramedLink

namespace Port

open FramedLink.Simulation.Exchange (Letter)

/-! ## Tables -/

namespace Table

variable {η ω δ : Type}

/-- At most one entry stands for each port. -/
def Sorted (t : Table η) : Prop := t.entries.Pairwise (·.port < ·.port)

theorem mem_place {e other : Entry η} {entries : List (Entry η)} (among : other ∈ place e entries) :
    other = e ∨ other ∈ entries := by
  induction entries with
  | nil => exact .inl (List.mem_singleton.mp among)
  | cons first rest ih =>
    unfold place at among
    split at among
    · exact List.mem_cons.mp among
    · split at among
      · rcases List.mem_cons.mp among with here | later
        · exact .inl here
        · exact .inr (List.mem_cons_of_mem _ later)
      · rcases List.mem_cons.mp among with here | later
        · exact .inr (here ▸ List.mem_cons_self)
        · exact (ih later).imp_right (List.mem_cons_of_mem _)

theorem sorted_place {e : Entry η} {entries : List (Entry η)}
    (sorted : entries.Pairwise (·.port < ·.port)) :
    (place e entries).Pairwise (·.port < ·.port) := by
  induction entries with
  | nil => exact List.pairwise_singleton _ _
  | cons first rest ih =>
    obtain ⟨least, others⟩ := List.pairwise_cons.mp sorted
    unfold place
    split
    · next before =>
      refine List.pairwise_cons.mpr ⟨?_, sorted⟩
      intro other among
      rcases List.mem_cons.mp among with rfl | later
      · exact before
      · exact Nat.lt_trans before (least other later)
    · split
      · next same =>
        refine List.pairwise_cons.mpr ⟨?_, others⟩
        intro other among
        rw [same]
        exact least other among
      · next notBefore notSame =>
        refine List.pairwise_cons.mpr ⟨?_, ih others⟩
        intro other among
        rcases mem_place among with rfl | later
        · omega
        · exact least other later

theorem sorted_insert {t : Table η} (sorted : t.Sorted) (e : Entry η) : (t.insert e).Sorted :=
  sorted_place sorted

theorem find?_insert {t : Table η} (sorted : t.Sorted) (e : Entry η) (port : Nat) :
    (t.insert e).find? port = if e.port = port then some e else t.find? port :=
  find?_place e t.entries port sorted

theorem port_of_find? {t : Table η} {port : Nat} {e : Entry η} (found : t.find? port = some e) :
    e.port = port := by
  have same := List.find?_some found
  exact of_decide_eq_true same

variable [Handler η ω] [Driver δ]

theorem run_route_of_none {t : Table η} {metadata : Nat}
    (none : t.find? (Address.unpack metadata).port = none) (payload : Bytes) (s : LinkState δ ω) :
    (s.run (t.route metadata payload)).1 = { t with unrouted := t.unrouted + 1 } := by
  unfold route
  simp only [none]
  rfl

theorem run_route_of_some {t : Table η} {metadata : Nat} {e : Entry η}
    (found : t.find? (Address.unpack metadata).port = some e) (payload : Bytes)
    (s : LinkState δ ω) :
    (s.run (t.route metadata payload)).1 = t.insert { e with
      handler := (s.run (Handler.onSegment t.directory e.handler (Address.unpack metadata)
        payload)).1 } := by
  unfold route
  simp only [found, LinkState.run_bind]
  rfl

end Table

/-! ## Frames for inboxes -/

theorem Mailable.unpack_pack {letter : Letter} (mailable : Mailable letter) (segment : Segment) :
    Address.unpack (Address.pack ⟨letter.port, segment, letter.data⟩) =
      ⟨letter.port, segment, letter.data⟩ := Address.unpack_pack mailable.fits

/-- The inbox of a port with another data frame, if that is for the port. -/
def Inbox.hear (port : Nat) (inbox : Inbox) (frame : Nat × Bytes) : Inbox :=
  let address := Address.unpack frame.1
  if address.port = port then inbox.take address frame.2 else inbox

/-- The frames of a letter for the port put the whole message into the inbox, unless it is too
long; those of other letters leave it alone. -/
theorem Inbox.hear_frames {letter : Letter} (mailable : Mailable letter) (port : Nat)
    (inbox : Inbox) :
    (frames letter).foldl (hear port) inbox =
      if letter.port = port then
        { reassembly := inbox.reassembly.clear
          data := letter.data
          letters := inbox.letters ++
            if letter.message.length ≤ inbox.reassembly.limit then [letter] else [] }
      else inbox := by
  rw [frames, List.foldl_map]
  simp only [hear, mailable.unpack_pack]
  split
  · exact inbox.takeAll_segments letter.port letter.data letter.message
  · exact List.foldl_fixed _

theorem Inbox.letters_hear {letters : List Letter} (mailable : ∀ letter ∈ letters, Mailable letter)
    (port : Nat) (inbox : Inbox) :
    ((letters.flatMap frames).foldl (hear port) inbox).letters =
      inbox.letters ++ letters.filter fun letter =>
        letter.port = port ∧ letter.message.length ≤ inbox.reassembly.limit := by
  induction letters generalizing inbox with
  | nil => exact (List.append_nil _).symm
  | cons letter rest ih =>
    have others := ih fun other among => mailable other (List.mem_cons_of_mem _ among)
    rw [List.flatMap_cons, List.foldl_append, hear_frames (mailable letter List.mem_cons_self),
      others, List.filter_cons]
    by_cases here : letter.port = port
    · by_cases fits : letter.message.length ≤ inbox.reassembly.limit
      · simp [here, fits, Reassembly.clear]
      · simp [here, fits, Reassembly.clear]
    · simp [here]

/-! ## What a table of message ports makes of frames -/

namespace Table

variable {κ ω δ : Type}

/-- The inbox of the message port that stands at a port. -/
def inbox? (t : Table (Service ω ⊕ MessagePort (Recorded κ))) (port : Nat) : Option Inbox :=
  (t.find? port).bind fun e =>
    match e.handler with
    | .inl _ => none
    | .inr m => some m.inbox

theorem inbox?_eq_some_iff {t : Table (Service ω ⊕ MessagePort (Recorded κ))} {port : Nat}
    {inbox : Inbox} :
    t.inbox? port = some inbox ↔
      ∃ e m, t.find? port = some e ∧ e.handler = .inr m ∧ m.inbox = inbox := by
  unfold inbox?
  constructor
  · intro held
    obtain ⟨e, found, here⟩ := Option.bind_eq_some_iff.mp held
    rcases handler : e.handler with service | m
    · rw [handler] at here
      cases here
    · rw [handler] at here
      exact ⟨e, m, found, handler, Option.some.inj here⟩
  · rintro ⟨e, m, found, handler, rfl⟩
    rw [found, Option.bind_some, handler]

/-- What several data frames make of a table. -/
structure Routed (t t' : Table (Service ω ⊕ MessagePort (Recorded κ)))
    (frames : List (Nat × Bytes)) : Prop where
  sorted : t'.Sorted
  registered : ∀ port, t'.isRegistered port = t.isRegistered port
  inbox : ∀ port, t'.inbox? port = (t.inbox? port).map fun inbox =>
    frames.foldl (Inbox.hear port) inbox
  unrouted : t'.unrouted =
    t.unrouted + frames.countP fun frame => !t.isRegistered (Address.unpack frame.1).port

variable {t t' t'' : Table (Service ω ⊕ MessagePort (Recorded κ))}

theorem Routed.nothing (sorted : t.Sorted) : Routed t t [] where
  sorted := sorted
  registered _ := rfl
  inbox _ := by simp
  unrouted := rfl

theorem Routed.trans {front back : List (Nat × Bytes)} (h : Routed t t' front)
    (h' : Routed t' t'' back) : Routed t t'' (front ++ back) where
  sorted := h'.sorted
  registered port := (h'.registered port).trans (h.registered port)
  inbox port := by
    rw [h'.inbox, h.inbox, Option.map_map]
    simp only [List.foldl_append]
    rfl
  unrouted := by
    rw [h'.unrouted, h.unrouted, List.countP_append]
    simp only [h.registered]
    omega

variable [Consumer κ ω] [Driver δ]

private theorem inbox?_insert (sorted : t.Sorted) {e : Entry (Service ω ⊕ MessagePort (Recorded κ))}
    {address : Address} (found : t.find? address.port = some e) (directory : Directory)
    (payload : Bytes) (s : LinkState δ ω) (port : Nat) :
    (t.insert { e with
      handler := (s.run (Handler.onSegment directory e.handler address payload)).1 }).inbox? port =
      (t.inbox? port).map fun inbox =>
        if address.port = port then inbox.take address payload else inbox := by
  have here := port_of_find? found
  simp only [inbox?, find?_insert sorted, here]
  by_cases same : address.port = port
  · subst same
    rcases e with ⟨place, description, service | m⟩
    · simp only [found, if_true, Option.bind_some, Handler.onSegment, LinkState.run_bind]
      rfl
    · simp only [found, if_true, Option.bind_some, Handler.onSegment, LinkState.run_bind]
      exact congrArg some (m.inbox_take directory address payload s)
  · simp [same]

/-- Whatever the handler does with a frame, and whatever becomes of the link meanwhile, the frame
is routed. -/
theorem routed_route (sorted : t.Sorted) (metadata : Nat) (payload : Bytes) (s : LinkState δ ω) :
    Routed t (s.run (t.route metadata payload)).1 [(metadata, payload)] := by
  rcases found : t.find? (Address.unpack metadata).port with _ | e
  · have absent : t.isRegistered (Address.unpack metadata).port = false := by
      rw [isRegistered, found]
      rfl
    rw [run_route_of_none found]
    exact {
      sorted
      registered _ := rfl
      inbox port := by
        by_cases same : (Address.unpack metadata).port = port
        · subst same
          have empty : t.inbox? (Address.unpack metadata).port = none := by
            rw [inbox?, found]
            rfl
          rw [empty]
          exact empty
        · simp [Inbox.hear, same, inbox?, find?]
      unrouted := by simp [absent] }
  · have present : t.isRegistered (Address.unpack metadata).port = true := by
      rw [isRegistered, found]
      rfl
    rw [run_route_of_some found]
    exact {
      sorted := sorted_insert sorted _
      registered port := by
        rw [isRegistered, find?_insert sorted]
        split
        · next same =>
          have here : e.port = (Address.unpack metadata).port := port_of_find? found
          have there : e.port = port := same
          rw [← there, here]
          exact present.symm
        · rfl
      inbox port := inbox?_insert sorted found t.directory payload s port
      unrouted := by simp [present, insert] }

private theorem routed_hears {calls : List Call} (h : Table.upper.Hears δ t calls t')
    (sorted : t.Sorted) {frames : List (Nat × Bytes)}
    (given : calls = frames.map fun frame => .data frame.1 frame.2) : Routed t t' frames := by
  induction h generalizing frames with
  | nothing =>
    obtain rfl : frames = [] := List.map_eq_nil_iff.mp given.symm
    exact .nothing sorted
  | call earlier s call ih =>
    obtain ⟨front, back, rfl, before, last⟩ := List.map_eq_append_iff.mp given.symm
    obtain ⟨frame, rfl, rfl⟩ := List.map_eq_singleton_iff.mp last
    have routed := ih before.symm
    exact routed.trans (routed_route routed.sorted frame.1 frame.2
      (s.log (.delivered frame.1 frame.2)))

end Table

/-- The frames of letters for ports without a handler are as many as the letters need. -/
theorem countP_frames {letters : List Letter} (mailable : ∀ letter ∈ letters, Mailable letter)
    (handled : Nat → Bool) :
    (letters.flatMap frames).countP (fun frame => !handled (Address.unpack frame.1).port) =
      ((letters.filter fun letter => !handled letter.port).map fun letter =>
        (letter.message.length + 255) / 256).sum := by
  induction letters with
  | nil => rfl
  | cons letter rest ih =>
    have first := mailable letter List.mem_cons_self
    have others := ih fun other among => mailable other (List.mem_cons_of_mem _ among)
    have own : (frames letter).countP (fun frame => !handled (Address.unpack frame.1).port) =
        if handled letter.port then 0 else (letter.message.length + 255) / 256 := by
      rw [frames, List.countP_map, ← length_segments first.some true]
      simp only [Function.comp_def, first.unpack_pack]
      cases handled letter.port with
      | false => simp
      | true => simp
    rw [List.flatMap_cons, List.countP_append, own, others, List.filter_cons]
    cases handled letter.port with
    | false => simp
    | true => simp

end Port

namespace Endpoint

open Port Journal Simulation

variable {δ η ω ε κ ξ : Type} [Driver δ] [Handler η ω] [Driver ε] [Consumer κ ξ]

/-- When an endpoint is given the frames of the messages that another one sent with success, in
their order and nothing else, every message port gives its consumer exactly the messages for its
port that are not too long, as they were sent. Of the messages for a port without a handler, every
frame is counted. -/
theorem letters_deeds (a : Endpoint δ η ω) (sending : List (Deed δ))
    {b : Endpoint ε (MessagePort (Recorded κ)) ξ} (sorted : b.ports.Sorted)
    (receiving : List (Deed ε)) :
    let posted := a.posted sending
    let letters := posted.map (·.1)
    let after := b.deeds receiving
    calls after.link.state.journal = calls b.link.state.journal ++
        (posted.flatMap (·.2)).map (fun frame => .data frame.1 frame.2) →
      (∀ port e m, b.ports.find? port = some e → e.handler = .inr m →
        ∃ e' m', after.ports.find? port = some e' ∧ e'.handler = .inr m' ∧
          m'.consumer.letters = m.consumer.letters ++ letters.filter fun letter =>
            letter.port = port ∧ letter.message.length ≤ m.reassembly.limit) ∧
      after.ports.unrouted = b.ports.unrouted +
        ((letters.filter fun letter => !b.ports.isRegistered letter.port).map fun letter =>
          (letter.message.length + 255) / 256).sum := by
  intro posted letters after given
  have mailable : ∀ letter ∈ letters, Mailable letter := by
    intro letter among
    obtain ⟨post, sent, rfl⟩ := List.mem_map.mp among
    exact (a.frames_of_posted sending post sent).1
  have framed : posted.flatMap (·.2) = letters.flatMap frames := by
    rw [List.flatMap_map]
    apply List.flatMap_congr
    intro post sent
    exact (a.frames_of_posted sending post sent).2
  obtain ⟨heard, hears, written⟩ := b.heard_deeds receiving
  have told := List.append_cancel_left (written.symm.trans given)
  rw [framed] at told
  have routed := Table.routed_hears hears sorted told
  refine ⟨?_, routed.unrouted.trans ?_⟩
  · intro port e m found handler
    have before : b.ports.inbox? port = some m.inbox :=
      Table.inbox?_eq_some_iff.mpr ⟨e, m, found, handler, rfl⟩
    have held := routed.inbox port
    rw [before, Option.map_some] at held
    obtain ⟨e', m', found', handler', same⟩ := Table.inbox?_eq_some_iff.mp held
    refine ⟨e', m', found', handler', ?_⟩
    exact (congrArg Inbox.letters same).trans (Inbox.letters_hear mailable port m.inbox)
  · rw [countP_frames mailable]

set_option maxRecDepth 4000 in
/-- A message port in the middle of a message, with a consumer that answers. One message has no
handler, one is too long, and one is not sent because there is no such port. -/
theorem letters_few :
    let a : Endpoint Wire Application Remark :=
      ⟨⟨.ofCapacity Frame.maxSize, .ofConfig {} {}⟩, {}⟩
    let sending : List (Deed Wire) := [.sendMessage 1 7 [1, 2],
      .sendMessage 2 8 (List.replicate 257 0), .sendMessage 1 9 [1, 2, 3, 4, 5, 6],
      .sendMessage 64 0 [1], .sendMessage 1 10 [3]]
    let port : MessagePort (Recorded Reader) :=
      { reassembly := ⟨5, [9], true⟩, consumer := ⟨⟨true⟩, []⟩ }
    let b : Endpoint Wire (MessagePort (Recorded Reader)) Remark :=
      ⟨⟨.ofCapacity Frame.maxSize, .ofConfig {} {}⟩,
        { entries := [⟨servicePort, some serviceDescription, .inl {}⟩, ⟨1, none, .inr port⟩] }⟩
    let receiving : List (Deed Wire) :=
      [.receive (a.deeds sending).link.state.driver.outbox.reverse.flatten]
    let after := b.deeds receiving
    (∃ e m, after.ports.find? 1 = some e ∧ e.handler = .inr m ∧
        m.consumer.letters = [⟨1, 7, [1, 2]⟩, ⟨1, 10, [3]⟩]) ∧
      after.ports.unrouted = 2 := by
  intro a sending port b receiving after
  have letters : (a.posted sending).map (·.1) = [⟨1, 7, [1, 2]⟩, ⟨2, 8, List.replicate 257 0⟩,
      ⟨1, 9, [1, 2, 3, 4, 5, 6]⟩, ⟨1, 10, [3]⟩] := by decide +kernel
  have sorted : b.ports.Sorted := List.pairwise_pair.mpr (by decide)
  have given : calls after.link.state.journal = calls b.link.state.journal ++
      ((a.posted sending).flatMap (·.2)).map fun frame => .data frame.1 frame.2 := by
    decide +kernel
  obtain ⟨handled, unrouted⟩ := letters_deeds a sending sorted receiving given
  obtain ⟨e, m, found, handler, held⟩ := handled 1 _ port rfl rfl
  rw [letters] at held unrouted
  exact ⟨⟨e, m, found, handler, held⟩, unrouted⟩

end Endpoint

end FramedLink
