import FramedLink.Proofs.Describing
import FramedLink.Proofs.WholeMessages

/-! # Which questions are answered

The service answers a question with one segment, so the answer has to fit into a frame. Counters and
echoes always do. The times need sixteen bytes behind the body of the question, and the description
of a port must not be the empty text. Any other answer is refused by the link and dropped.
-/

namespace FramedLink.Port

variable {δ η ω : Type} [Driver δ]

/-! ## Answers -/

/-- What the service answers to a question, on this state of the link. -/
def answerBody (directory : Directory) (question : Question) (argument : Nat) (body : Bytes)
    (s : LinkState δ ω) : Bytes :=
  match question with
  | .status => s.status.toBytes
  | .echo => body
  | .timeSync => body ++ Bytes.ofNatLE timeSize s.clock ++ Bytes.ofNatLE timeSize s.clock
  | .description => Text.write ((directory argument).getD noDescription)

/-- The questions whose answer fits into a frame. -/
structure Answerable (directory : Directory) (question : Question) (argument : Nat)
    (body : Bytes) : Prop where
  timed : question = .timeSync → body.length + 16 ≤ 256
  described : question = .description → directory argument ≠ some ""

section Answerable

variable {directory : Directory} {question : Question} {argument : Nat} {body : Bytes}

private theorem answerable_of_ne (timeless : question ≠ .timeSync)
    (other : question ≠ .description) : Answerable directory question argument body :=
  ⟨fun same => absurd same timeless, fun same => absurd same other⟩

private theorem answerable_timeSync :
    Answerable directory .timeSync argument body ↔ body.length + 16 ≤ 256 := by
  constructor
  · intro able
    exact able.timed rfl
  · intro short
    exact ⟨fun _ => short, fun other => (by cases other)⟩

theorem answerable_description :
    Answerable directory .description argument body ↔ directory argument ≠ some "" := by
  constructor
  · intro able
    exact able.described rfl
  · intro text
    exact ⟨fun other => (by cases other), fun _ => text⟩

/-- If descriptions are short, an answer has a length that a payload can have exactly when the
question is answerable. -/
theorem answerBody_sized (sized : 1 ≤ body.length ∧ body.length ≤ Frame.maxPayload)
    (short : ∀ text, directory argument = some text → text.utf8ByteSize ≤ Frame.maxPayload)
    (s : LinkState δ ω) :
    let answer := answerBody directory question argument body s
    (1 ≤ answer.length ∧ answer.length ≤ Frame.maxPayload) ↔
      Answerable directory question argument body := by
  intro answer
  simp only [Frame.maxPayload] at sized short ⊢
  cases question with
  | status =>
    have length : answer.length = 81 := (LinkStatus.length_toBytes s.status).trans (by decide)
    exact iff_of_true (by omega) (answerable_of_ne (by decide) (by decide))
  | echo => exact iff_of_true sized (answerable_of_ne (by decide) (by decide))
  | timeSync =>
    have length : answer.length = body.length + 16 := by
      simp only [answer, answerBody, List.length_append, Bytes.length_ofNatLE, timeSize]
    rw [answerable_timeSync, length]
    omega
  | description =>
    rw [answerable_description]
    cases described : directory argument with
    | none =>
      have length : answer.length = 2 := by
        simp only [answer, answerBody, described]
        rfl
      exact iff_of_true (by omega) (Option.some_ne_none _).symm
    | some text =>
      have length : answer.length = text.utf8ByteSize := by
        simp only [answer, answerBody, described]
        rfl
      have fits := short text described
      rw [length, ne_eq, Option.some.injEq, ← String.utf8ByteSize_eq_zero_iff]
      omega

end Answerable

variable {config : Config} {s : LinkState δ ω}

private theorem run_answer (directory : Directory) (question : Question) (argument : Nat)
    (body : Bytes) :
    s.run (Service.answer directory question argument body) =
      s.run (Service.respond question argument
        (answerBody directory question argument body s)) := by
  cases question <;> rfl

theorem portData_lt (question : Question) (response : Bool) {argument : Nat}
    (small : argument < 256) : question.portData response argument < 0x10000 := by
  have code : question.code < 128 := by cases question <;> decide
  have flag : response.toNat < 2 := response.toNat_lt
  unfold Question.portData
  omega

/-- A question whose answer fits is answered if there is room; any other changes nothing. -/
theorem run_respond (kept : Kept config s) (question : Question) {argument : Nat}
    (small : argument < 256) (body : Bytes) (room : 1 ≤ s.sendCapacity) :
    let after := (s.run (Service.respond question argument body)).2
    ((1 ≤ body.length ∧ body.length ≤ Frame.maxPayload) →
        Joins servicePort (question.portData true argument) [(.single, body)] s after) ∧
      (¬ (1 ≤ body.length ∧ body.length ≤ Frame.maxPayload) → after = s) := by
  have fits := portData_lt question true small
  constructor
  · intro sized
    exact (joins_sendSegment kept (Nat.zero_le _) fits .single sized room).2
  · intro unsized
    cases outcome : (s.run (Service.respond question argument body)).1 with
    | ok =>
      have sendable := (sendable_of_sent outcome).2
      exact absurd ⟨sendable.some, sendable.short⟩ unsized
    | error fault => exact sendSegment_refused outcome

variable [Handler η ω]

/-! ## The service at its port -/

/-- This service stands at its port. -/
def Stands (service : Service ω) (t : Table (Service ω ⊕ η)) : Prop :=
  ∃ e, t.find? servicePort = some e ∧ e.handler = .inl service

/-- The service stands at its port. -/
def Serving (t : Table (Service ω ⊕ η)) : Prop :=
  ∃ e service, t.find? servicePort = some e ∧ e.handler = .inl service

omit [Handler η ω] in
theorem serving_iff {t : Table (Service ω ⊕ η)} : Serving t ↔ ∃ service, Stands service t := by
  constructor
  · rintro ⟨e, service, found, serves⟩
    exact ⟨service, e, found, serves⟩
  · rintro ⟨service, e, found, serves⟩
    exact ⟨e, service, found, serves⟩

private theorem onSegment_inl (directory : Directory) (service : Service ω) (address : Address)
    (payload : Bytes) :
    Handler.onSegment directory (Sum.inl service : Service ω ⊕ η) address payload =
      (service.take directory address payload).bind fun service => .done (.inl service) := rfl

section Stands

variable {t : Table (Service ω ⊕ η)} {service : Service ω}

theorem Stands.run_route (stands : Stands service t) {metadata : Nat}
    (here : (Address.unpack metadata).port = servicePort) (payload : Bytes) :
    (s.run (t.route metadata payload)).2 =
      (s.run (service.take t.directory (Address.unpack metadata) payload)).2 := by
  obtain ⟨e, found, serves⟩ := stands
  unfold Table.route
  simp only [here, found, LinkState.run_bind, serves, onSegment_inl]
  rfl

theorem Stands.run_route_inquiry (stands : Stands service t) (question : Question)
    (response : Bool) {argument : Nat} (small : argument < 256) (payload : Bytes) :
    let address : Address := ⟨servicePort, .single, question.portData response argument⟩
    (s.run (t.route address.pack payload)).2 =
      (s.run (service.take t.directory address payload)).2 := by
  intro address
  have valid : address.Valid := ⟨Nat.zero_le _, portData_lt question response small⟩
  have unpacked := Address.unpack_pack valid
  rw [stands.run_route (congrArg Address.port unpacked), unpacked]

theorem run_route_question {e : Entry (Service ω ⊕ η)} (found : t.find? servicePort = some e)
    (serves : e.handler = .inl service) (question : Question) {argument : Nat}
    (small : argument < 256) (body : Bytes) :
    (s.run (t.route (Address.pack ⟨servicePort, .single, question.portData false argument⟩)
        body)).2 =
      (s.run (Service.respond question argument
        (answerBody t.directory question argument body s))).2 := by
  have stands : Stands service t := ⟨e, found, serves⟩
  rw [stands.run_route_inquiry question false small]
  simp only [Service.take, if_true, Inquiry.ofPortData?_portData, LinkState.run_bind, run_answer]
  rfl

private theorem run_take (directory : Directory) (service : Service ω) (address : Address)
    (payload : Bytes) : (s.run (service.take directory address payload)).1 = service := by
  unfold Service.take
  split
  · split
    · rfl
    · rw [LinkState.run_bind]
      rfl
    · rw [LinkState.run_bind]
      rfl
  · rfl

private theorem find?_tellAll (directory : Directory) (event : Event) {port : Nat}
    {entries : List (Entry η)} {e : Entry η} (found : entries.find? (·.port = port) = some e)
    (s : LinkState δ ω) :
    ∃ s' : LinkState δ ω, (s.run (Table.tellAll directory event entries)).1.find? (·.port = port) =
      some { e with handler := (s'.run (Handler.onEvent directory e.handler event)).1 } := by
  induction entries generalizing s with
  | nil => cases found
  | cons first rest ih =>
    simp only [Table.tellAll, LinkState.run_bind, LinkState.run]
    by_cases here : first.port = port
    · rw [List.find?_cons_of_pos (by simpa using here)] at found ⊢
      obtain rfl : first = e := Option.some.inj found
      exact ⟨s, rfl⟩
    · rw [List.find?_cons_of_neg (by simpa using here)] at found ⊢
      exact ih found _

private theorem run_onEvent_inl (directory : Directory) (service : Service ω) (event : Event) :
    (s.run (Handler.onEvent directory (Sum.inl service : Service ω ⊕ η) event)).1 =
      .inl service := rfl

theorem Stands.tell (stands : Stands service t) (event : Event) :
    Stands service (s.run (t.tell event)).1 := by
  obtain ⟨e, found, serves⟩ := stands
  obtain ⟨s', told⟩ := find?_tellAll t.directory event found s
  rw [serves, run_onEvent_inl] at told
  rw [Table.tell, LinkState.run_bind]
  exact ⟨_, told, rfl⟩

theorem Stands.route (stands : Stands service t) (sorted : t.Sorted) (metadata : Nat)
    (payload : Bytes) : Stands service (s.run (t.route metadata payload)).1 := by
  obtain ⟨e, found, serves⟩ := stands
  cases taker : t.find? (Address.unpack metadata).port with
  | none =>
    rw [Table.run_route_of_none taker]
    exact ⟨e, found, serves⟩
  | some taking =>
    rw [Table.run_route_of_some taker]
    by_cases here : taking.port = servicePort
    · -- It is the service that takes the segment.
      rw [← Table.port_of_find? taker, here, found] at taker
      obtain rfl : e = taking := Option.some.inj taker
      refine ⟨_, (Table.find?_insert sorted _ _).trans (if_pos here), ?_⟩
      rw [serves, onSegment_inl, LinkState.run_bind]
      exact congrArg Sum.inl (run_take t.directory service (Address.unpack metadata) payload)
    · exact ⟨e, (Table.find?_insert sorted _ _).trans ((if_neg here).trans found), serves⟩

end Stands

theorem lasting_stands (directory : Directory) (service : Service ω) :
    LinkState.Lasting (δ := δ) Table.upper fun (t : Table (Service ω ⊕ η)) _ =>
      Table.Shows directory t ∧ Stands service t where
  emission _ holds := holds
  reaction _ holds := holds
  told := by
    rintro t s call ⟨shows, stands⟩
    refine ⟨(Table.lasting_shows directory).told call shows, ?_⟩
    cases call with
    | event event => exact stands.tell event
    | data metadata payload => exact stands.route shows.sorted metadata payload
  counted _ holds := holds
  disconnected holds := holds
  rewind holds := holds
  restarted holds := holds
  driver _ holds := holds

/-- Whatever happens to a link, the service stays at its port, and the descriptions stay. -/
theorem lasting_serving (directory : Directory) :
    LinkState.Lasting (δ := δ) Table.upper fun (t : Table (Service ω ⊕ η)) _ =>
      Table.Shows directory t ∧ Serving t where
  emission _ holds := holds
  reaction _ holds := holds
  told := by
    rintro t s call ⟨shows, serving⟩
    obtain ⟨service, stands⟩ := serving_iff.mp serving
    have told := (lasting_stands (δ := δ) directory service).told (s := s) call ⟨shows, stands⟩
    exact ⟨told.1, serving_iff.mpr ⟨service, told.2⟩⟩
  counted _ holds := holds
  disconnected holds := holds
  rewind holds := holds
  restarted holds := holds
  driver _ holds := holds

end FramedLink.Port

/-! ## Questions and answers -/

namespace FramedLink.Endpoint

open Port

variable {δ η ω ε κ ξ : Type} [Driver δ] [Handler η ω] [Driver ε] [Handler κ ξ]

omit [Handler η ω] in
private theorem joins_ask {e : Endpoint δ η ω} {config : Config} (kept : Kept config e.link.state)
    {question : Question} {argument : Nat} (small : argument < 256) {body : Bytes}
    (asked : (e.ask question argument body).1 = .ok ()) :
    let payload := if body = [] then [0] else body
    (1 ≤ payload.length ∧ payload.length ≤ Frame.maxPayload) ∧
      Joins servicePort (question.portData false argument) [(.single, payload)] e.link.state
        (e.ask question argument body).2.link.state := by
  intro payload
  have accepted : (e.link.state.run (sendSegment servicePort .single
      (question.portData false argument) payload)).1 = .ok () := asked
  have sendable := (sendable_of_sent accepted).2
  have sized : 1 ≤ payload.length ∧ payload.length ≤ Frame.maxPayload :=
    ⟨sendable.some, sendable.short⟩
  exact ⟨sized, (joins_sendSegment kept (Nat.zero_le _) (portData_lt question false small) .single
    sized sendable.capacity).2⟩

/-- Whatever two endpoints have been used for, a question that one of them accepts is answered by
the service of the other when it arrives and there is capacity, with exactly one segment that
carries the code and the argument of the question. The exceptions are that the times do not fit
behind a body of more than 240 bytes, and that the empty text cannot be sent: then nothing at all is
sent. -/
theorem ask_answered_iff {config config' : Config} {driver : δ} {driver' : ε}
    {start a : Endpoint δ η ω} {start' b : Endpoint ε κ ξ}
    (started : ofConfig config driver = .ok start) (reaches : Reaches start a)
    (started' : ofConfig config' driver' = .ok start') (reaches' : Reaches start' b)
    {question : Question} {argument : Nat} (small : argument < 256) {body : Bytes}
    (asked : (a.ask question argument body).1 = .ok ()) (serving : Serving b.ports)
    {act : Act ε} {ports : Table (Service ξ ⊕ κ)} {s : LinkState ε ξ} :
    let payload := if body = [] then [0] else body
    let metadata := Address.pack ⟨servicePort, .single, question.portData false argument⟩
    let answer := answerBody b.ports.directory question argument payload s
    let after := (LinkState.tell Table.upper (ports, s) (.data metadata payload)).2
    Link.Calls Table.upper (b.ports, b.link) act ports s (.data metadata payload) →
    1 ≤ s.sendCapacity →
    Joins servicePort (question.portData false argument) [(.single, payload)] a.link.state
        (a.ask question argument body).2.link.state ∧
      (Answerable b.ports.directory question argument payload →
        Joins servicePort (question.portData true argument) [(.single, answer)] s after) ∧
      (¬ Answerable b.ports.directory question argument payload →
        after = s.log (.delivered metadata payload)) := by
  intro payload metadata answer after calls room
  have described := reaches'.described (described_ofConfig started')
  obtain ⟨sized, sent⟩ := joins_ask ((Meets.between reaches).kept started) small asked
  -- The tables before the act and at the call have the service and the same descriptions.
  obtain ⟨-, shows, there⟩ := (lasting_serving (δ := ε) b.ports.directory).enduring.calls calls
    ⟨Table.shows_self described.sorted, serving⟩
  obtain ⟨e, service, found, serves⟩ := there
  let told := s.log (.delivered metadata payload)
  have kept : Kept config' told :=
    (Meets.within reaches' calls (LinkState.mem_stations _ _)).kept started'
  have same : after = (told.run (Service.respond question argument answer)).2 := by
    have routed := run_route_question (s := told) found serves question small payload
    rw [shows.shown] at routed
    exact routed
  have fits : 1 ≤ answer.length ∧ answer.length ≤ Frame.maxPayload ↔
      Answerable b.ports.directory question argument payload :=
    answerBody_sized sized (described.short argument) s
  obtain ⟨joins, nothing⟩ := run_respond kept question small answer room
  rw [same]
  refine ⟨sent, fun able => ?_, fun unable => nothing fun sized => unable (fits.mp sized)⟩
  have joined := joins (fits.mpr able)
  exact ⟨joined.frames, joined.nextId, joined.capacity⟩

section Examples

open Simulation

/-- An endpoint with a port of this description, and nothing done yet. -/
def describing (description : String) : Endpoint Wire Application Remark :=
  let start : Endpoint Wire Application Remark := ⟨⟨.ofCapacity Frame.maxSize, .ofConfig {} {}⟩,
    { entries := [⟨servicePort, some serviceDescription, .inl {}⟩] }⟩
  (start.register 5 (some description) (.inr (.recorder 5))).2

/-- The question for the description of a port is answered when it arrives. -/
theorem ask_answered_description :
    let b := describing "x"
    let metadata := Address.pack ⟨servicePort, .single, Question.description.portData false 5⟩
    ∃ ports s, Link.Calls Table.upper (b.ports, b.link)
        (.receive (DataFrame.image ⟨0, metadata, [0]⟩)) ports s (.data metadata [0]) ∧
      Joins servicePort (Question.description.portData true 5) [(.single, Text.write "x")] s
        (LinkState.tell Table.upper (ports, s) (.data metadata [0])).2 := by
  intro b metadata
  let start : Endpoint Wire Application Remark := ⟨⟨.ofCapacity Frame.maxSize, .ofConfig {} {}⟩,
    { entries := [⟨servicePort, some serviceDescription, .inl {}⟩] }⟩
  have started : ofConfig {} {} = .ok start :=
    ofConfig_eq_ok_iff.mpr ⟨_, Link.ofConfig_eq_ok_iff.mpr ⟨Config.valid_default, rfl⟩, rfl⟩
  have asked : (start.ask .description 5 []).1 = .ok () := by decide +kernel
  have noticed : (b.link.framer.receive (DataFrame.image ⟨0, metadata, [0]⟩)).2 =
      [] ++ ⟨{ bytes := 13, dataFrames := 1 }, .frame (.data ⟨0, metadata, [0]⟩)⟩ :: [] := by
    decide +kernel
  have calls := @Link.Calls.notice _ _ _ _ Table.upper (b.ports, b.link)
    (DataFrame.image ⟨0, metadata, [0]⟩) [] [] _ _ _ [] [] _ noticed rfl
    (.accept (by decide +kernel))
  have answered := (ask_answered_iff started .start started
    (.register .start 5 (some "x") (.inr (Application.recorder 5))) (by decide) asked
    ⟨_, {}, rfl, rfl⟩ calls (by decide +kernel)).2.1
  exact ⟨_, _, calls, answered (answerable_description.mpr (by decide +kernel))⟩

/-- The empty text is accepted as a description, and the question for it is accepted and arrives,
but it is not answered. -/
theorem ask_unanswered :
    let b := describing ""
    let metadata := Address.pack ⟨servicePort, .single, Question.description.portData false 5⟩
    let question := DataFrame.image ⟨0, metadata, [0]⟩
    let asked := b.ask .description 5 []
    let after := (b.receive question).link.state
    b.ports.directory 5 = some "" ∧ b.link.state.sendCapacity = 32 ∧ asked.1 = .ok () ∧
      asked.2.link.state.window.frames.map Outgoing.named = [(0, question)] ∧
      Journal.calls after.journal = [.data metadata [0]] ∧ after.window.frames = [] := by
  decide +kernel

end Examples

end FramedLink.Endpoint
