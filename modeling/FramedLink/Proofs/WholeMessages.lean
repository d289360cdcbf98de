import FramedLink.Proofs.Mailing
import FramedLink.Proofs.Reaching
import FramedLink.Proofs.Reassembling

/-! # Messages are sent whole or not at all

Whether a message is sent is decided before its first segment: it has to have bytes, its port has to
be one, and the link has to have room for all of its segments. Each segment then takes one place, so
there is room for the last one too. A message that is not sent leaves no trace.
-/

namespace FramedLink.Port

/-! ## How a message is cut -/

/-- The markers of so many segments of one message. -/
def markers : Nat → List Segment
  | 0 => []
  | 1 => [.single]
  | n + 2 => .start :: (List.replicate n .middle ++ [.stop])

/-- A message is cut into these segments: as few as there can be, all of them full but the last. -/
structure Cut (message : Bytes) (parts : List (Segment × Bytes)) : Prop where
  count : parts.length = (message.length + 255) / 256
  joined : parts.flatMap Prod.snd = message
  full : ∀ part ∈ parts.dropLast, part.2.length = 256
  marked : parts.map Prod.fst = markers parts.length

theorem segments_ne_nil (first : Bool) (message : Bytes) : segments first message ≠ [] := by
  unfold segments
  split <;> exact List.cons_ne_nil _ _

private theorem full_segments (first : Bool) (message : Bytes) :
    ∀ part ∈ (segments first message).dropLast, part.2.length = 256 := by
  fun_induction segments first message with
  | case1 first message short => exact List.forall_mem_nil _
  | case2 first message long ih =>
    rw [List.dropLast_cons_of_ne_nil (segments_ne_nil false _)]
    refine List.forall_mem_cons.mpr ⟨?_, ih⟩
    simp only [Frame.maxPayload, List.length_take] at long ⊢
    omega

private theorem marked_segments_false (message : Bytes) :
    (segments false message).map Prod.fst =
      List.replicate ((segments false message).length - 1) .middle ++ [.stop] := by
  generalize goesOn : false = first
  fun_induction segments first message with
  | case1 first message short =>
    subst goesOn
    rfl
  | case2 first message long ih =>
    subst goesOn
    have some := List.length_pos_iff.mpr (segments_ne_nil false (message.drop Frame.maxPayload))
    obtain ⟨n, counted⟩ := Nat.exists_eq_succ_of_ne_zero (Nat.ne_of_gt some)
    rw [List.map_cons, ih rfl, List.length_cons, counted]
    rfl

private theorem marked_segments (message : Bytes) :
    (segments true message).map Prod.fst = markers (segments true message).length := by
  unfold segments
  split
  · rfl
  · have some := List.length_pos_iff.mpr (segments_ne_nil false (message.drop Frame.maxPayload))
    obtain ⟨n, counted⟩ := Nat.exists_eq_succ_of_ne_zero (Nat.ne_of_gt some)
    rw [List.map_cons, marked_segments_false, List.length_cons, counted]
    rfl

private theorem cut_segments {message : Bytes} (some : message ≠ []) :
    Cut message (segments true message) where
  count := length_segments some true
  joined := flatMap_segments true message
  full := full_segments true message
  marked := marked_segments message

/-! ## How segments come into the window -/

/-- The frames with these segments, by id, if the first one gets this id. -/
def framed (port data first : Nat) (parts : List (Segment × Bytes)) : List (Nat × Bytes) :=
  parts.mapIdx fun k part =>
    let id := (first + k) % 2048
    (id, DataFrame.image ⟨id, Address.pack ⟨port, part.1, data⟩, part.2⟩)

private theorem framed_append (port data first : Nat) (parts rest : List (Segment × Bytes)) :
    framed port data first (parts ++ rest) =
      framed port data first parts ++ framed port data ((first + parts.length) % 2048) rest := by
  have later (k : Nat) :
      (first + (k + parts.length)) % 2048 = ((first + parts.length) % 2048 + k) % 2048 := by
    omega
  simp only [framed, List.mapIdx_append, later]

variable {δ ω : Type}

/-- The segments of a message join the window behind the frames there, with ids in a row. -/
structure Joins (port data : Nat) (parts : List (Segment × Bytes)) (s after : LinkState δ ω) :
    Prop where
  frames : after.window.frames.map Outgoing.named =
    s.window.frames.map Outgoing.named ++ framed port data s.nextId parts
  nextId : after.nextId = (s.nextId + parts.length) % 2048
  capacity : after.sendCapacity + parts.length = s.sendCapacity

theorem Joins.trans {port data : Nat} {parts rest : List (Segment × Bytes)}
    {s s' s'' : LinkState δ ω} (joins : Joins port data parts s s')
    (joins' : Joins port data rest s' s'') : Joins port data (parts ++ rest) s s'' where
  frames := by
    rw [joins'.frames, joins.frames, joins.nextId, framed_append, List.append_assoc]
  nextId := by
    rw [joins'.nextId, joins.nextId, List.length_append]
    omega
  capacity := by
    have first := joins.capacity
    have second := joins'.capacity
    rw [List.length_append]
    omega

/-- The blocks of the window are accounted for, and the next id is one. -/
structure Kept (config : Config) (s : LinkState δ ω) : Prop where
  stocked : s.window.Stocked config
  small : s.nextId < FrameId.space

variable [Driver δ] {config : Config} {s : LinkState δ ω} {port data : Nat}

theorem Kept.emits (kept : Kept config s) {s' : LinkState δ ω} (emits : LinkState.Emits s s') :
    Kept config s' where
  stocked := Endpoint.lasting_emits (fun upper => LinkState.lasting_stocked upper config) emits
    kept.stocked
  small := Endpoint.lasting_emits (fun upper => LinkState.lasting_nextId upper) emits kept.small

theorem run_sendSegment (near : port ≤ maxPort) (segment : Segment) (payload : Bytes) :
    s.run (sendSegment port segment data payload) =
      s.send (Address.pack ⟨port, segment, data⟩) payload := by
  rw [sendSegment, Address.make, if_neg (Nat.not_lt_of_le near)]
  rfl

theorem sendable_of_sent {segment : Segment} {payload : Bytes}
    (sent : (s.run (sendSegment port segment data payload)).1 = .ok ()) :
    port ≤ maxPort ∧ s.Sendable (Address.pack ⟨port, segment, data⟩) payload := by
  by_cases near : port ≤ maxPort
  · rw [run_sendSegment near] at sent
    exact ⟨near, LinkState.send_eq_ok_iff.mp sent⟩
  · rw [sendSegment, Address.make, if_pos (Nat.lt_of_not_le near)] at sent
    cases sent

theorem joins_sendSegment (kept : Kept config s) (near : port ≤ maxPort) (fits : data < 0x10000)
    (segment : Segment) {payload : Bytes}
    (sized : 1 ≤ payload.length ∧ payload.length ≤ Frame.maxPayload) (room : 1 ≤ s.sendCapacity) :
    (s.run (sendSegment port segment data payload)).1 = .ok () ∧
      Joins port data [(segment, payload)] s (s.run (sendSegment port segment data payload)).2 := by
  have valid : (⟨port, segment, data⟩ : Address).Valid := ⟨near, fits⟩
  have sendable : s.Sendable (Address.pack ⟨port, segment, data⟩) payload :=
    ⟨sized.1, sized.2, Address.pack_le valid, room⟩
  obtain ⟨frames, next, left⟩ := LinkState.send_of_sendable kept.stocked sendable
  rw [run_sendSegment near]
  refine ⟨LinkState.send_eq_ok_iff.mpr sendable, ?_, next, left⟩
  have here : (s.nextId + 0) % 2048 = s.nextId := Nat.mod_eq_of_lt kept.small
  simp only [framed, List.mapIdx_cons, List.mapIdx_nil, here]
  exact frames

private theorem joins_sendSegments (kept : Kept config s) (near : port ≤ maxPort)
    (fits : data < 0x10000) {parts : List (Segment × Bytes)}
    (payloads : ∀ part ∈ parts, 1 ≤ part.2.length ∧ part.2.length ≤ Frame.maxPayload)
    (room : parts.length ≤ s.sendCapacity) :
    (s.run (sendSegments port data parts)).1 = .ok () ∧
      Joins port data parts s (s.run (sendSegments port data parts)).2 := by
  induction parts generalizing s with
  | nil =>
    refine ⟨rfl, ?_, ?_, rfl⟩
    · exact (List.append_nil _).symm
    · exact (Nat.mod_eq_of_lt kept.small).symm
  | cons part rest ih =>
    rw [List.length_cons] at room
    obtain ⟨sent, first⟩ := joins_sendSegment kept near fits part.1
      (payloads part List.mem_cons_self) (by omega)
    have later := kept.emits (LinkState.emits_run (sendSegment port part.1 data part.2) s)
    have left := first.capacity
    rw [List.length_singleton] at left
    rw [sendSegments, LinkState.run_bind]
    rcases ran : s.run (sendSegment port part.1 data part.2) with ⟨outcome, s'⟩
    rw [ran] at sent first later left
    obtain rfl : outcome = .ok () := sent
    obtain ⟨accepted, joins⟩ := ih later
      (fun other among => payloads other (List.mem_cons_of_mem _ among)) (by omega)
    exact ⟨accepted, first.trans joins⟩

/-- A message is sent whole, or not at all. -/
structure AllOrNothing (port data : Nat) (message : Bytes) (outcome : Except Fault Unit)
    (s after : LinkState δ ω) : Prop where
  sent_iff : outcome = .ok () ↔
    message ≠ [] ∧ port ≤ 63 ∧ (message.length + 255) / 256 ≤ s.sendCapacity
  addressed (segment : Segment) : port ≤ 63 →
    Address.unpack (Address.pack ⟨port, segment, data⟩) = ⟨port, segment, data⟩
  all : outcome = .ok () → ∃ parts, Cut message parts ∧ Joins port data parts s after
  nothing : outcome ≠ .ok () → after = s

private theorem sendMessage_of_room {message : Bytes} (some : message ≠ []) (near : port ≤ maxPort)
    (room : (segments true message).length ≤ s.sendCapacity) :
    s.run (sendMessage port data message) =
      s.run (sendSegments port data (segments true message)) := by
  rw [sendMessage, if_neg some, Address.make, if_neg (Nat.not_lt_of_le near)]
  simp only [LinkState.run, if_neg (Nat.not_lt_of_le room)]

private theorem sent_only {message : Bytes}
    (sent : (s.run (sendMessage port data message)).1 = .ok ()) :
    message ≠ [] ∧ port ≤ maxPort ∧ (segments true message).length ≤ s.sendCapacity := by
  unfold sendMessage at sent
  by_cases empty : message = []
  · rw [if_pos empty] at sent
    cases sent
  rw [if_neg empty] at sent
  unfold Address.make at sent
  by_cases beyond : maxPort < port
  · rw [if_pos beyond] at sent
    cases sent
  rw [if_neg beyond] at sent
  simp only [LinkState.run] at sent
  by_cases full : s.sendCapacity < (segments true message).length
  · rw [if_pos full] at sent
    cases sent
  exact ⟨empty, Nat.le_of_not_lt beyond, Nat.le_of_not_lt full⟩

/-- Whatever the state of the link, as long as its blocks are accounted for. -/
theorem allOrNothing_sendMessage (kept : Kept config s) (fits : data < 0x10000)
    (message : Bytes) :
    AllOrNothing port data message (s.run (sendMessage port data message)).1 s
      (s.run (sendMessage port data message)).2 where
  sent_iff := by
    constructor
    · intro sent
      obtain ⟨some, near, room⟩ := sent_only sent
      rw [length_segments some] at room
      exact ⟨some, near, room⟩
    · rintro ⟨some, near, room⟩
      rw [← length_segments some true] at room
      rw [sendMessage_of_room some near room]
      exact (joins_sendSegments kept near fits (segments_payload some) room).1
  addressed segment near := Address.unpack_pack ⟨near, fits⟩
  all := by
    intro sent
    obtain ⟨some, near, room⟩ := sent_only sent
    rw [sendMessage_of_room some near room]
    exact ⟨segments true message, cut_segments some,
      (joins_sendSegments kept near fits (segments_payload some) room).2⟩
  nothing := by
    intro refused
    cases outcome : (s.run (sendMessage port data message)).1 with
    | ok => exact absurd outcome refused
    | error fault => exact sendMessage_refused outcome

end FramedLink.Port

namespace FramedLink.Endpoint

open Port

variable {δ η ω : Type} [Driver δ] [Handler η ω]

theorem Meets.kept {config : Config} {driver : δ} {start : Endpoint δ η ω}
    (started : ofConfig config driver = .ok start) {s : LinkState δ ω} (meets : Meets start s) :
    Kept config s := by
  obtain ⟨l, linked, rfl⟩ := ofConfig_eq_ok_iff.mp started
  have new := (Link.ofConfig_eq_ok_iff.mp linked).2
  constructor
  · exact meets.lasting (fun upper => LinkState.lasting_stocked upper config)
      (Link.stocked_ofConfig linked)
  · exact meets.lasting (fun upper => LinkState.lasting_nextId upper)
      (new ▸ Nat.zero_lt_succ _ : l.state.nextId < FrameId.space)

/-- Whatever an endpoint has been used for, and whether a message is sent from outside or by one of
its handlers, the message is sent exactly if it has bytes, the port is one and there is capacity for
all of its segments. Then their frames join the window in order, with ids in a row; otherwise
nothing changes at all. -/
theorem sendMessage_all_or_nothing {config : Config} {driver : δ} {start : Endpoint δ η ω}
    (started : ofConfig config driver = .ok start) {data : Nat} (fits : data < 0x10000)
    (port : Nat) (message : Bytes) :
    (∀ e, Reaches start e →
      let sent := e.sendMessage port data message
      AllOrNothing port data message sent.1 e.link.state sent.2.link.state ∧
        (sent.1 ≠ .ok () → sent.2 = e)) ∧
    ∀ s, Meets start s →
      let sent := s.run (Port.sendMessage port data message)
      AllOrNothing port data message sent.1 s sent.2 := by
  have everywhere (s : LinkState δ ω) (meets : Meets start s) :
      AllOrNothing port data message (s.run (Port.sendMessage port data message)).1 s
        (s.run (Port.sendMessage port data message)).2 :=
    allOrNothing_sendMessage (meets.kept started) fits message
  refine ⟨fun e reaches => ?_, everywhere⟩
  have whole := everywhere e.link.state (.between reaches)
  refine ⟨whole, fun refused => ?_⟩
  have same := whole.nothing refused
  exact congrArg (fun state : LinkState δ ω => { e with link.state := state }) same

open Simulation in
/-- A handler that sends a segment back meets the link behind that, where it could send two more. A
message for a port that there is not changes nothing. -/
theorem sendMessage_within :
    let start : Endpoint Wire Application Remark := ⟨⟨.ofCapacity Frame.maxSize, .ofConfig {} {}⟩,
      { entries := [⟨servicePort, some serviceDescription, .inl {}⟩] }⟩
    let message : Bytes := List.replicate 300 1
    ofConfig {} {} = .ok start ∧ ∃ s, Meets start s ∧ s.nextId = 1 ∧
      (s.run (Port.sendMessage 5 7 message)).1 = .ok () ∧
      (s.run (Port.sendMessage 5 7 message)).2.nextId = 3 ∧
      (s.run (Port.sendMessage 64 7 message)).2 = s ∧
      (start.sendMessage 5 7 []).2 = start := by
  intro start message
  let e := (start.register 5 none (.inr (.reverser 5))).2
  let metadata := Address.pack ⟨5, .single, 7⟩
  let chunk := DataFrame.image ⟨0, metadata, [1, 2]⟩
  have started : ofConfig {} {} = .ok start :=
    ofConfig_eq_ok_iff.mpr ⟨_, Link.ofConfig_eq_ok_iff.mpr ⟨Config.valid_default, rfl⟩, rfl⟩
  have noticed : (e.link.framer.receive chunk).2 =
      [] ++ ⟨{ bytes := 14, dataFrames := 1 }, .frame (.data ⟨0, metadata, [1, 2]⟩)⟩ :: [] := by
    decide +kernel
  have calls := @Link.Calls.notice _ _ _ _ Table.upper (e.ports, e.link) chunk [] [] _ _ _ [] [] _
    noticed rfl (.accept (by decide +kernel))
  obtain ⟨s, meets, next, capacity⟩ : ∃ s, Meets start s ∧ s.nextId = 1 ∧ s.sendCapacity = 31 := by
    have reaches : Reaches start e := .register .start 5 none (.inr (Application.reverser 5))
    refine ⟨_, .within reaches calls (List.getLast_mem ?stations), ?next, ?capacity⟩
    case stations => decide +kernel
    case next => decide +kernel
    case capacity => decide +kernel
  have fits : 7 < 0x10000 := by decide
  have inside := (sendMessage_all_or_nothing started fits 5 message).2 s meets
  have beyond := (sendMessage_all_or_nothing started fits 64 message).2 s meets
  have outside := (sendMessage_all_or_nothing started fits 5 []).1 start .start
  have long : message.length = 300 := List.length_replicate
  have some : message ≠ [] := List.ne_nil_of_length_eq_add_one long
  have sent := inside.sent_iff.mpr ⟨some, by decide, by rw [long, capacity]; decide⟩
  obtain ⟨parts, cut, joins⟩ := inside.all sent
  have two : parts.length = 2 := by rw [cut.count, long]
  refine ⟨started, s, meets, next, sent, ?_, ?_, ?_⟩
  · rw [joins.nextId, next, two]
  · apply beyond.nothing
    intro accepted
    have near : 64 ≤ 63 := (beyond.sent_iff.mp accepted).2.1
    omega
  · apply outside.2
    intro accepted
    exact (outside.1.sent_iff.mp accepted).1 rfl

end FramedLink.Endpoint
