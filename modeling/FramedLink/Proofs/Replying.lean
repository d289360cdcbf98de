import FramedLink.Proofs.Answering
import FramedLink.Proofs.Decoding
import FramedLink.Proofs.WrittenText

/-! # What replies tell

A question travels to the service of the peer in one segment, and so does the answer back. What the
listener hears then is what the peer knew when it handled the question: its counters, the body, its
clock, or the description of a port. The response itself is not answered.
-/

namespace FramedLink

open FramedLink.Journal

/-! ## Counters -/

private theorem Bytes.take_drop_flatMap (width : Nat) {numbers : List Nat} {place : Nat}
    (among : place < numbers.length) :
    ((numbers.flatMap (ofNatLE width)).drop (place * width)).take width =
      ofNatLE width numbers[place] := by
  induction numbers generalizing place with
  | nil => exact absurd among (Nat.not_lt_zero _)
  | cons number rest ih =>
    rw [List.flatMap_cons]
    cases place with
    | zero =>
      rw [Nat.zero_mul, List.drop_zero, List.take_left' (length_ofNatLE width number)]
      rfl
    | succ place =>
      have earlier : (place + 1) * width = (ofNatLE width number).length + place * width := by
        rw [length_ofNatLE, Nat.add_mul, Nat.one_mul, Nat.add_comm]
      rw [earlier, List.drop_length_add_append]
      exact ih (Nat.lt_of_succ_lt_succ among)

namespace LinkStatus

/-- Every counter fits into its eight bytes. -/
def Fits (s : LinkStatus) : Prop := ∀ n ∈ s.toList, n < 2 ^ 64

private theorem counter_toBytes {s : LinkStatus} (fits : s.Fits) {place : Nat}
    (among : place < s.toList.length) :
    Bytes.toNatLE ((s.toBytes.drop (1 + place * counterSize)).take counterSize) =
      s.toList[place] := by
  rw [toBytes, Nat.add_comm, List.drop_succ_cons, Bytes.take_drop_flatMap counterSize among]
  exact Bytes.toNatLE_ofNatLE_of_lt (fits _ (List.getElem_mem among))

theorem ofBytes_toBytes {s : LinkStatus} (fits : s.Fits) : ofBytes s.toBytes = .ok s := by
  have counter (place : Nat) (among : place < 10) :
      Bytes.toNatLE ((s.toBytes.drop (1 + place * counterSize)).take counterSize) =
        s.toList[place] := counter_toBytes fits among
  have long : ¬ s.toBytes.length < encodedSize := by
    rw [length_toBytes]
    exact Nat.lt_irrefl _
  unfold ofBytes
  simp only [if_neg long]
  rw [counter 0 (by decide), counter 1 (by decide), counter 2 (by decide), counter 3 (by decide),
    counter 4 (by decide), counter 5 (by decide), counter 6 (by decide), counter 7 (by decide),
    counter 8 (by decide), counter 9 (by decide)]
  rfl

end LinkStatus

namespace Port

variable {δ η ω : Type} [Driver δ]

/-! ## Replies -/

/-- What is to be heard after a question that was handled on this state of a link, if the response
arrives at `now`. -/
def dueReply (directory : Directory) (question : Question) (argument : Nat) (body : Bytes)
    (s : LinkState δ ω) (now : Nat) : Reply :=
  match question with
  | .status => .status s.status
  | .echo => .echo body
  | .timeSync => .timeSync body s.clock s.clock now
  | .description => .description argument ((directory argument).getD "\x7b\x7d")

/-- The counters and the clock of a link fit into eight bytes each. -/
structure Measured (s : LinkState δ ω) : Prop where
  counters : s.status.Fits
  clock : s.clock < 2 ^ 64

private theorem ofPayload?_timeSync (argument : Nat) (body : Bytes) {received sent : Bytes}
    (early : received.length = timeSize) (late : sent.length = timeSize) (now : Nat) :
    Reply.ofPayload? .timeSync argument (body ++ received ++ sent) now =
      some (.timeSync body (Bytes.toNatLE received) (Bytes.toNatLE sent) now) := by
  have long : (body ++ received ++ sent).length = body.length + 2 * timeSize := by
    rw [List.length_append, List.length_append, early, late]
    omega
  have enough : ¬ (body ++ received ++ sent).length < 2 * timeSize := by omega
  have behind : (body ++ received ++ sent).length - 2 * timeSize = body.length := by omega
  unfold Reply.ofPayload?
  simp only [if_neg enough, behind]
  rw [List.append_assoc, List.drop_left, List.take_left, List.take_left' early,
    List.drop_left' early]

/-- The answer to a question is read as the reply that is due. -/
theorem ofPayload?_answerBody (directory : Directory) (question : Question) (argument : Nat)
    (body : Bytes) {s : LinkState δ ω} (measured : Measured s) (now : Nat) :
    Reply.ofPayload? question argument (answerBody directory question argument body s) now =
      some (dueReply directory question argument body s now) := by
  cases question with
  | status =>
    simp only [answerBody, dueReply, Reply.ofPayload?, LinkStatus.ofBytes_toBytes measured.counters]
  | echo => rfl
  | timeSync =>
    have clock : Bytes.toNatLE (Bytes.ofNatLE timeSize s.clock) = s.clock :=
      Bytes.toNatLE_ofNatLE_of_lt measured.clock
    have read := ofPayload?_timeSync argument body (Bytes.length_ofNatLE timeSize s.clock)
      (Bytes.length_ofNatLE timeSize s.clock) now
    rw [clock] at read
    exact read
  | description =>
    simp only [answerBody, dueReply, Reply.ofPayload?, Text.readLossy_write, noDescription]

/-! ## Responses -/

variable {s : LinkState δ ω}

/-- A response is for the service, with the bit for responses in the port data. -/
def IsResponse (metadata : Nat) : Prop :=
  (Address.unpack metadata).port = servicePort ∧ (Address.unpack metadata).data / 128 % 2 = 1

theorem run_hear {listener : Reply → ω} {question : Question} {argument : Nat} {payload : Bytes}
    {reply : Reply} (read : Reply.ofPayload? question argument payload s.clock = some reply) :
    (s.run (Service.hear { listener := some listener } question argument payload)).2 =
      s.log (.remarked (listener reply)) := by
  simp only [Service.hear, LinkState.run, read, Script.say]

private theorem run_hear_quiet (service : Service ω) (question : Question) (argument : Nat)
    (payload : Bytes) :
    let after := (s.run (service.hear question argument payload)).2
    after = s ∨ ∃ remark, after = s.log (.remarked remark) := by
  obtain ⟨_ | listener⟩ := service
  · exact .inl rfl
  · cases read : Reply.ofPayload? question argument payload s.clock with
    | none =>
      left
      simp only [Service.hear, LinkState.run, read]
    | some reply => exact .inr ⟨_, run_hear read⟩

private theorem Inquiry.response_of_ofPortData? {data : Nat} {inquiry : Inquiry}
    (read : ofPortData? data = some inquiry) : inquiry.response = decide (data / 128 % 2 = 1) := by
  obtain ⟨question, -, rfl⟩ := Option.map_eq_some_iff.mp read
  rfl

private theorem run_take_quiet (directory : Directory) (service : Service ω) {address : Address}
    (response : address.data / 128 % 2 = 1) (payload : Bytes) :
    let after := (s.run (service.take directory address payload)).2
    after = s ∨ ∃ remark, after = s.log (.remarked remark) := by
  unfold Service.take
  split
  · cases read : Inquiry.ofPortData? address.data with
    | none => exact .inl rfl
    | some inquiry =>
      have flag := Inquiry.response_of_ofPortData? read
      obtain ⟨question, _ | _, argument⟩ := inquiry
      · exact absurd response (of_decide_eq_false flag.symm)
      · simp only [LinkState.run_bind]
        exact run_hear_quiet service question argument payload
  · exact .inl rfl

variable {η : Type} [Handler η ω]

private theorem Stands.run_route_response {t : Table (Service ω ⊕ η)} {service : Service ω}
    (stands : Stands service t) (question : Question) {argument : Nat} (small : argument < 256)
    (payload : Bytes) :
    (s.run (t.route (Address.pack ⟨servicePort, .single, question.portData true argument⟩)
        payload)).2 =
      (s.run (service.hear question argument payload)).2 := by
  rw [stands.run_route_inquiry question true small]
  simp only [Service.take, if_true, Inquiry.ofPortData?_portData, LinkState.run_bind]
  rfl

end Port

/-! ## Frames that were accepted -/

namespace LinkState

open Port

variable {δ ω : Type}

/-- The frames that a link has accepted since. -/
def acceptedSince (before after : LinkState δ ω) : List (Nat × Bytes) :=
  (tally after.journal).sends.drop (tally before.journal).sends.length

variable [Driver δ] {s : LinkState δ ω}

theorem mem_acceptedSince {port data : Nat} {segment : Segment} {payload : Bytes}
    {frame : Nat × Bytes}
    (among : frame ∈ s.acceptedSince (s.run (sendSegment port segment data payload)).2) :
    frame = (Address.pack ⟨port, segment, data⟩, payload) := by
  unfold acceptedSince at among
  cases outcome : (s.run (sendSegment port segment data payload)).1 with
  | ok done =>
    rw [(sends_sendSegment outcome).2, List.drop_left] at among
    exact List.mem_singleton.mp among
  | error fault =>
    rw [sendSegment_refused outcome, List.drop_length] at among
    cases among

end LinkState

/-! ## There and back -/

namespace Endpoint

open Port

variable {δ η ω ε κ ξ : Type} [Driver δ] [Handler η ω] [Driver ε] [Handler κ ξ]

/-- A question goes from one endpoint to the service of another one and is answered there, and the
answer arrives at the first endpoint when its service has a listener. -/
structure RoundTrip (start : Endpoint δ η ω) (start' : Endpoint ε κ ξ) where
  question : Question
  argument : Nat
  small : argument < 256
  body : Bytes
  asker : Endpoint δ η ω
  reached : Reaches start asker
  /-- A frame that the link of the asker accepts when it puts the question. -/
  request : Nat × Bytes
  sent : request ∈ acceptedSince asker (asker.ask question argument body).2
  responder : Endpoint ε κ ξ
  /-- The descriptions that the ports of the responder were given, newest first. -/
  given : List (Nat × Option String)
  registered : Registers start' given responder
  serving : Serving responder.ports
  act : Act ε
  ports : Table (Service ξ ⊕ κ)
  /-- The link of the responder when it passes the request on, in the middle of an act. -/
  handling : LinkState ε ξ
  arrives : Link.Calls Table.upper (responder.ports, responder.link) act ports handling
    (.data request.1 request.2)
  /-- A frame that the link of the responder accepts meanwhile. -/
  response : Nat × Bytes
  answered : response ∈ handling.acceptedSince
    (LinkState.tell Table.upper (ports, handling) (.data request.1 request.2)).2
  /-- The asker when the response arrives. -/
  later : Endpoint δ η ω
  since : Reaches (asker.ask question argument body).2 later
  listener : Reply → ω
  listening : Stands { listener := some listener } later.ports
  act' : Act δ
  ports' : Table (Service ω ⊕ η)
  /-- The link of the asker when it passes the response on. -/
  hearing : LinkState δ ω
  returns : Link.Calls Table.upper (later.ports, later.link) act' ports' hearing
    (.data response.1 response.2)

namespace RoundTrip

variable {start : Endpoint δ η ω} {start' : Endpoint ε κ ξ} (trip : RoundTrip start start')
  {config config' : Config} {driver : δ} {driver' : ε}

/-- A body without bytes is a zero. -/
def asked : Bytes := if trip.body = [] then [0] else trip.body

/-- The reply that is due, by what the responder knows when it handles the question. -/
def due : Reply :=
  dueReply (lastGiven trip.given) trip.question trip.argument trip.asked trip.handling
    trip.hearing.clock

/-- The link of the asker after it has passed the response on. -/
def heard : LinkState δ ω :=
  (LinkState.tell Table.upper (trip.ports', trip.hearing)
    (.data trip.response.1 trip.response.2)).2

private theorem request_eq : trip.request =
    (Address.pack ⟨servicePort, .single, trip.question.portData false trip.argument⟩,
      trip.asked) :=
  LinkState.mem_acceptedSince (s := trip.asker.link.state) trip.sent

/-- The response is the answer to the question, from what the responder knows. -/
theorem response_eq (started' : ofConfig config' driver' = .ok start') : trip.response =
    (Address.pack ⟨servicePort, .single, trip.question.portData true trip.argument⟩,
      answerBody (lastGiven trip.given) trip.question trip.argument trip.asked trip.handling) := by
  have described := trip.registered.reaches.described (described_ofConfig started')
  -- Up to the call, the responder keeps its service and its descriptions.
  obtain ⟨-, shows, e, service, found, serves⟩ :=
    (lasting_serving (δ := ε) trip.responder.ports.directory).enduring.calls trip.arrives
      ⟨Table.shows_self described.sorted, trip.serving⟩
  let told := trip.handling.log (.delivered trip.request.1 trip.request.2)
  have routed := run_route_question (s := told) found serves trip.question trip.small trip.asked
  have answered : trip.response ∈ told.acceptedSince
      (told.run (trip.ports.route trip.request.1 trip.request.2)).2 := trip.answered
  have same : answerBody (lastGiven trip.given) trip.question trip.argument trip.asked told =
      answerBody (lastGiven trip.given) trip.question trip.argument trip.asked trip.handling := by
    cases trip.question <;> rfl
  rw [trip.request_eq] at answered
  rw [routed, shows.shown, trip.registered.directory_eq started', same] at answered
  exact LinkState.mem_acceptedSince answered

/-- The listener hears the reply that is due, and nothing else happens. -/
theorem heard_eq (started : ofConfig config driver = .ok start)
    (started' : ofConfig config' driver' = .ok start') (measured : Measured trip.handling) :
    trip.heard = (trip.hearing.log (.delivered trip.response.1 trip.response.2)).log
      (.remarked (trip.listener trip.due)) := by
  have asking := Reaches.deed trip.reached (.ask trip.question trip.argument trip.body)
  have described := trip.since.described (asking.described (described_ofConfig started))
  -- Up to the call, the asker keeps the service with the listener.
  obtain ⟨-, -, stands⟩ :=
    (lasting_stands (δ := δ) trip.later.ports.directory _).enduring.calls trip.returns
      ⟨Table.shows_self described.sorted, trip.listening⟩
  have response := trip.response_eq started'
  have read : Reply.ofPayload? trip.question trip.argument trip.response.2 trip.hearing.clock =
      some trip.due := by
    rw [response]
    exact ofPayload?_answerBody _ trip.question trip.argument trip.asked measured _
  have address : trip.response.1 =
      Address.pack ⟨servicePort, .single, trip.question.portData true trip.argument⟩ :=
    congrArg Prod.fst response
  let told := trip.hearing.log (.delivered trip.response.1 trip.response.2)
  have routed := stands.run_route_response (s := told) trip.question trip.small trip.response.2
  rw [← address] at routed
  exact routed.trans (run_hear read)

end RoundTrip

private theorem quiet_calls {e : Endpoint δ η ω} (described : Described e.ports)
    (serving : Serving e.ports) {act : Act δ} {ports : Table (Service ω ⊕ η)} {s : LinkState δ ω}
    {metadata : Nat} {payload : Bytes}
    (calls : Link.Calls Table.upper (e.ports, e.link) act ports s (.data metadata payload))
    (response : IsResponse metadata) :
    let told := s.log (.delivered metadata payload)
    let after := (LinkState.tell Table.upper (ports, s) (.data metadata payload)).2
    after = told ∨ ∃ remark, after = told.log (.remarked remark) := by
  intro told after
  obtain ⟨-, -, there⟩ := (lasting_serving (δ := δ) e.ports.directory).enduring.calls calls
    ⟨Table.shows_self described.sorted, serving⟩
  obtain ⟨service, stands⟩ := serving_iff.mp there
  have routed : after = _ := stands.run_route (s := told) response.1 payload
  rw [routed]
  exact run_take_quiet ports.directory service response.2 payload

/-- Whatever two endpoints have been used for, a question that one of them puts, that the service
of the other answers and whose answer arrives where a listener is, makes the listener hear exactly
what the other one knew when it handled the question. And no response is answered: whatever response
arrives at a service, nothing is sent. -/
theorem replies_tell {config config' : Config} {driver : δ} {driver' : ε}
    {start : Endpoint δ η ω} {start' : Endpoint ε κ ξ}
    (started : ofConfig config driver = .ok start)
    (started' : ofConfig config' driver' = .ok start') :
    (∀ trip : RoundTrip start start', Measured trip.handling →
      trip.heard = (trip.hearing.log (.delivered trip.response.1 trip.response.2)).log
        (.remarked (trip.listener trip.due))) ∧
    ∀ e, Reaches start e → Serving e.ports → ∀ {act ports s metadata payload},
      Link.Calls Table.upper (e.ports, e.link) act ports s (.data metadata payload) →
      IsResponse metadata →
      let told := s.log (.delivered metadata payload)
      let after := (LinkState.tell Table.upper (ports, s) (.data metadata payload)).2
      after = told ∨ ∃ remark, after = told.log (.remarked remark) := by
  constructor
  · intro trip measured
    exact trip.heard_eq started started' measured
  · intro e reaches serving act ports s metadata payload calls response
    exact quiet_calls (reaches.described (described_ofConfig started)) serving calls response

section Examples

open Simulation

/-- The clock of the peer shows 5000 when the question for the time is handled, and the clock here
shows 1007 when the response arrives. -/
theorem replies_tell_times :
    let start : Endpoint Wire Application Remark := ⟨⟨.ofCapacity Frame.maxSize, .ofConfig {} {}⟩,
      { entries := [⟨servicePort, some serviceDescription, .inl {}⟩] }⟩
    ∃ trip : RoundTrip start start, trip.question = .timeSync ∧ trip.body = [7] ∧
      trip.heard = (trip.hearing.log (.delivered trip.response.1 trip.response.2)).log
        (.remarked (.reply (.timeSync [7] 5000 5000 1007))) := by
  intro start
  have started : ofConfig {} {} = .ok start :=
    ofConfig_eq_ok_iff.mpr ⟨_, Link.ofConfig_eq_ok_iff.mpr ⟨Config.valid_default, rfl⟩, rfl⟩
  let responder := start.deed (.tune { now := 5000 })
  let later := ((start.ask .timeSync 0 [7]).2.deed (.tune { now := 1007 })).listen Remark.reply
  let request : Nat × Bytes :=
    (Address.pack ⟨servicePort, .single, Question.timeSync.portData false 0⟩, [7])
  let response : Nat × Bytes :=
    (Address.pack ⟨servicePort, .single, Question.timeSync.portData true 0⟩,
      [7] ++ Bytes.ofNatLE 8 5000 ++ Bytes.ofNatLE 8 5000)
  have noticed : (responder.link.framer.receive (DataFrame.image ⟨0, request.1, request.2⟩)).2 =
      [] ++ ⟨{ bytes := 13, dataFrames := 1 },
        .frame (.data ⟨0, request.1, request.2⟩)⟩ :: [] := by
    decide +kernel
  have noticed' : (later.link.framer.receive (DataFrame.image ⟨0, response.1, response.2⟩)).2 =
      [] ++ ⟨{ bytes := 29, dataFrames := 1 },
        .frame (.data ⟨0, response.1, response.2⟩)⟩ :: [] := by
    decide +kernel
  obtain ⟨ports, handling, arrives, answered, status, clock⟩ : ∃ ports s,
      Link.Calls Table.upper (responder.ports, responder.link)
        (.receive (DataFrame.image ⟨0, request.1, request.2⟩)) ports s
        (.data request.1 request.2) ∧
      response ∈ s.acceptedSince
        (LinkState.tell Table.upper (ports, s) (.data request.1 request.2)).2 ∧
      s.status = { rx := { bytes := 13, dataFrames := 1 } } ∧ s.clock = 5000 := by
    have arrives := @Link.Calls.notice _ _ _ _ Table.upper (responder.ports, responder.link) _ [] []
      _ _ _ [] [] _ noticed rfl (.accept (by decide +kernel))
    exact ⟨_, _, arrives, by decide +kernel, by decide +kernel, by decide +kernel⟩
  obtain ⟨ports', hearing, returns, clock'⟩ : ∃ ports s,
      Link.Calls Table.upper (later.ports, later.link)
        (.receive (DataFrame.image ⟨0, response.1, response.2⟩)) ports s
        (.data response.1 response.2) ∧
      s.clock = 1007 := by
    have returns := @Link.Calls.notice _ _ _ _ Table.upper (later.ports, later.link) _ [] []
      _ _ _ [] [] _ noticed' rfl (.accept (by decide +kernel))
    exact ⟨_, _, returns, by decide +kernel⟩
  let trip : RoundTrip start start := {
    question := .timeSync, argument := 0, small := by decide, body := [7]
    asker := start, reached := .start, request, sent := by decide +kernel
    responder, given := _, registered := .deed .start _, serving := ⟨_, {}, rfl, rfl⟩
    act := _, ports, handling, arrives, response, answered
    later, since := .listen (.deed .start _) _, listener := _, listening := ⟨_, rfl, rfl⟩
    act' := _, ports', hearing, returns }
  have measured : Measured trip.handling := by
    refine ⟨?_, ?_⟩
    · rw [show trip.handling.status = _ from status, LinkStatus.Fits]
      decide
    · rw [show trip.handling.clock = _ from clock]
      decide
  have due : trip.due = .timeSync [7] 5000 5000 1007 := by
    rw [← clock, ← clock']
    rfl
  have heard := (replies_tell started started).1 trip measured
  rw [due] at heard
  exact ⟨trip, rfl, rfl, heard⟩

end Examples

end Endpoint

end FramedLink
