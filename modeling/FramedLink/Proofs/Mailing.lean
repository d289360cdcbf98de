import FramedLink.Proofs.Capacity
import FramedLink.Proofs.Forgetting
import FramedLink.Proofs.Inboxes

/-! # Layers that send messages

A layer above that sends whole messages only, from wherever it is called, and keeps a list of those
that were sent with success. A message that is refused leaves no trace, so the frames that the link
accepts for a port in one epoch are those of whole messages, one behind the other.
-/

namespace FramedLink

open Journal

variable {δ ω α : Type}

/-! ## Entries of one epoch -/

namespace Journal

theorem clears_append (newer older : List (Entry ω)) :
    clears (newer ++ older) = clears newer + clears older := by
  induction newer with
  | nil => exact (Nat.zero_add _).symm
  | cons entry rest ih =>
    rcases entry with (_ | _ | _ | _) | _ | _ | _ | _ | _ <;>
      simp only [List.cons_append, clears, ih, Nat.add_right_comm]

theorem sends_append {newer : List (Entry ω)} (ongoing : clears newer = 0)
    (older : List (Entry ω)) (epoch : Nat) :
    (ofEpoch epoch (newer ++ older)).sends = (ofEpoch epoch older).sends ++
      if clears older = epoch then (tally newer).sends else [] := by
  induction newer with
  | nil => simp [tally]
  | cons entry rest ih =>
    have before : clears rest = 0 := by
      have := clears_le entry rest
      omega
    have same : clears (rest ++ older) = clears older := by rw [clears_append, before, Nat.zero_add]
    rw [List.cons_append, ofEpoch_cons, same]
    split
    · next here =>
      rw [if_pos here] at ih
      rcases entry with (_ | _ | _ | _) | _ | _ | _ | _ | _ <;>
        simp [tally, Tally.add, Tally.accept, Tally.deliver, Tally.release, ih before]
    · next other =>
      rw [if_neg other] at ih
      exact ih before

theorem sends_cons {entry : Entry ω}
    (other : ∀ metadata payload, entry ≠ .accepted metadata payload)
    (epoch : Nat) (earlier : List (Entry ω)) :
    (ofEpoch epoch (entry :: earlier)).sends = (ofEpoch epoch earlier).sends := by
  rw [ofEpoch_cons]
  split
  · rcases entry with (_ | _ | _ | _) | _ | _ | _ | _ | _ <;>
      first | rfl | exact absurd rfl (other _ _)
  · rfl

end Journal

namespace Port

open FramedLink.Simulation.Exchange (Letter)

/-! ## Mailings -/

/-- A script that sends whole messages only. -/
inductive Mailing (ω α : Type) where
  | done (value : α)
  | post (letter : Letter) (next : Except Fault Unit → Mailing ω α)
  | status (next : LinkStatus → Mailing ω α)
  | clock (next : Nat → Mailing ω α)
  | capacity (next : Nat → Mailing ω α)
  | remark (remark : ω) (next : Mailing ω α)

/-- What a mailing does. With its value come the letters that were sent with success. -/
def Mailing.script : Mailing ω α → Script ω (α × List Letter)
  | done value => .done (value, [])
  | post letter next =>
    (sendMessage letter.port letter.data letter.message).bind fun
      | .ok () => (next (.ok ())).script.bind fun (value, sent) => .done (value, letter :: sent)
      | .error fault => (next (.error fault)).script
  | status next => .status fun answer => (next answer).script
  | clock next => .clock fun answer => (next answer).script
  | capacity next => .capacity fun answer => (next answer).script
  | remark r next => .remark r next.script

/-- The state `κ` of what answers messages with messages. -/
class Mailer (κ : Type) (ω : outParam Type) where
  onMessage : Directory → κ → (port data : Nat) → Bytes → Mailing ω κ

/-- A consumer that keeps the letters that it sent with success. -/
structure Mailbox (κ : Type) where
  mailer : κ
  sent : List Letter := []

instance {κ : Type} [Mailer κ ω] : Consumer (Mailbox κ) ω where
  onMessage directory m port data message :=
    (Mailer.onMessage directory m.mailer port data message).script.bind fun (mailer, sent) =>
      .done ⟨mailer, m.sent ++ sent⟩

/-- Message ports that keep what they get and what they send, and services. -/
abbrev PostOffice (κ ω : Type) := Table (Service ω ⊕ MessagePort (Recorded (Mailbox κ)))

/-- A message port of the office has sent the letter with success. -/
def PostOffice.Sent {κ : Type} (o : PostOffice κ ω) (letter : Letter) : Prop :=
  ∃ port e m, o.find? port = some e ∧ e.handler = .inr m ∧ letter ∈ m.consumer.consumer.sent

/-- No service stands at any port. -/
def PostOffice.Unserved {κ : Type} (o : PostOffice κ ω) : Prop :=
  ∀ port e, o.find? port = some e → e.handler.isRight

/-! ## Messages that are refused -/

section Refusing

variable [Driver δ] {s : LinkState δ ω}

theorem segments_payload {first : Bool} {message : Bytes} (some : message ≠ []) :
    ∀ part ∈ segments first message, 1 ≤ part.2.length ∧ part.2.length ≤ Frame.maxPayload := by
  have positive := List.length_pos_iff.mpr some
  clear some
  fun_induction segments first message with
  | case1 first message short =>
    intro part among
    rw [List.mem_singleton.mp among]
    exact ⟨positive, short⟩
  | case2 first message long ih =>
    simp only [Frame.maxPayload] at long ih ⊢
    simp only [List.length_drop] at ih
    intro part among
    rcases List.mem_cons.mp among with rfl | later
    · simp only [List.length_take]
      omega
    · exact ih (by omega) part later

theorem sendSegment_refused {port data : Nat} {segment : Segment} {payload : Bytes} {fault : Fault}
    (refused : (s.run (sendSegment port segment data payload)).1 = .error fault) :
    (s.run (sendSegment port segment data payload)).2 = s := by
  unfold sendSegment at refused ⊢
  split at refused
  · rfl
  · next address _ =>
    have refused : (s.send address.pack payload).1 = .error fault := refused
    change (s.send address.pack payload).2 = s
    rcases LinkState.send_cases s address.pack payload with ⟨-, _, same⟩ | ⟨-, -, _, -, same⟩
    · rw [same]
    · rw [same] at refused
      cases refused

/-- Segments for which there is room are all accepted, or the first one is refused. -/
theorem sendSegments_cases {port : Nat} (data : Nat) (near : port ≤ maxPort)
    {parts : List (Segment × Bytes)}
    (payloads : ∀ part ∈ parts, 1 ≤ part.2.length ∧ part.2.length ≤ Frame.maxPayload)
    (room : parts.length ≤ s.sendCapacity) :
    (s.run (sendSegments port data parts)).1 = .ok () ∨
      (s.run (sendSegments port data parts)).2 = s := by
  by_cases fits : data < 0x10000
  · left
    induction parts generalizing s with
    | nil => rfl
    | cons part rest ih =>
      have here := payloads part List.mem_cons_self
      have valid : (⟨port, part.1, data⟩ : Address).Valid := ⟨near, fits⟩
      have sendable : s.Sendable (Address.pack ⟨port, part.1, data⟩) part.2 :=
        ⟨here.1, here.2, Address.pack_le valid, Nat.lt_of_lt_of_le (Nat.zero_lt_succ _) room⟩
      have sent := LinkState.send_eq_ok_iff.mpr sendable
      have left := sendable.sendCapacity_send
      rw [List.length_cons] at room
      have later := ih (s := (s.send (Address.pack ⟨port, part.1, data⟩) part.2).2)
        (fun other among => payloads other (List.mem_cons_of_mem _ among)) (by omega)
      rw [sendSegments, LinkState.run_bind, sendSegment, Address.make,
        if_neg (Nat.not_lt_of_le near)]
      simp only [Script.sendFrame, LinkState.run, sent]
      exact later
  · right
    cases parts with
    | nil => rfl
    | cons part rest =>
      rw [sendSegments, LinkState.run_bind]
      rcases first : s.run (sendSegment port part.1 data part.2) with ⟨outcome, s'⟩
      cases outcome with
      | ok =>
        have valid := (sends_sendSegment (congrArg Prod.fst first)).1
        exact absurd valid.2 fits
      | error =>
        have same := sendSegment_refused (congrArg Prod.fst first)
        rw [first] at same
        exact same

theorem sendMessage_refused {port data : Nat} {message : Bytes} {fault : Fault}
    (refused : (s.run (sendMessage port data message)).1 = .error fault) :
    (s.run (sendMessage port data message)).2 = s := by
  unfold sendMessage at refused ⊢
  by_cases empty : message = []
  · rw [if_pos empty]
    rfl
  rw [if_neg empty] at refused ⊢
  unfold Address.make at refused ⊢
  by_cases beyond : maxPort < port
  · rw [if_pos beyond]
    rfl
  rw [if_neg beyond] at refused ⊢
  simp only [LinkState.run] at refused ⊢
  by_cases full : s.sendCapacity < (segments true message).length
  · rw [if_pos full]
    rfl
  rw [if_neg full] at refused ⊢
  rcases sendSegments_cases data (Nat.le_of_not_lt beyond) (segments_payload empty)
    (Nat.le_of_not_lt full) with sent | same
  · rw [sent] at refused
    cases refused
  · exact same

end Refusing

/-! ## What is posted -/

/-- Between two states nothing was forgotten, and the frames that were accepted for a port are those
of letters for it, one behind the other. -/
structure Posts (port : Nat) (s s' : LinkState δ ω) (letters : List Letter) : Prop where
  written : ∃ newer, s'.journal = newer ++ s.journal ∧ clears newer = 0 ∧
    forPort port (tally newer).sends = letters.flatMap frames
  mailable : ∀ letter ∈ letters, Mailable letter ∧ letter.port = port

namespace Posts

variable {port : Nat} {s s' s'' : LinkState δ ω} {letters more : List Letter}

theorem refl (port : Nat) (s : LinkState δ ω) : Posts port s s [] := ⟨⟨[], rfl, rfl, rfl⟩, nofun⟩

theorem trans (h : Posts port s s' letters) (h' : Posts port s' s'' more) :
    Posts port s s'' (letters ++ more) := by
  obtain ⟨⟨newer, written, ongoing, framed⟩, mailable⟩ := h
  obtain ⟨⟨newer', written', ongoing', framed'⟩, mailable'⟩ := h'
  refine ⟨⟨newer' ++ newer, ?_, ?_, ?_⟩, ?_⟩
  · rw [written', written, List.append_assoc]
  · rw [clears_append, ongoing, ongoing']
  · have sends : (tally (newer' ++ newer)).sends =
        (tally newer).sends ++ (tally newer').sends := by
      have both := sends_append ongoing' newer (clears newer)
      rw [if_pos rfl] at both
      have whole : clears (newer' ++ newer) = 0 := by rw [clears_append, ongoing, ongoing']
      rw [ongoing] at both
      rw [← present_eq_tally whole, ← present_eq_tally ongoing, present, present, whole, ongoing]
      exact both
    rw [sends, forPort_append, framed, framed', List.flatMap_append]
  · intro letter among
    rcases List.mem_append.mp among with first | second
    · exact mailable letter first
    · exact mailable' letter second

end Posts

theorem Posts.note {port : Nat} (s : LinkState δ ω) (entry : FramedLink.Entry ω)
    (idle : entry.Idle) : Posts port s (s.note entry) [] := by
  refine ⟨⟨[entry], rfl, (clears_idle idle []).trans rfl, ?_⟩, nofun⟩
  rw [tally, add_idle idle]
  rfl

section Posting

variable [Driver δ]

private theorem clears_emission {s s' : LinkState δ ω} (emission : LinkState.Emission s s') :
    clears s'.journal = clears s.journal := by
  cases emission <;> rfl

/-- What a script writes down is the same above every journal, and nothing is forgotten by it. -/
theorem run_written (script : Script ω α) (s : LinkState δ ω) :
    let blank : LinkState δ ω := { s with journal := [] }
    let newer := (blank.run script).2.journal
    (s.run script).1 = (blank.run script).1 ∧ (s.run script).2.journal = newer ++ s.journal ∧
      clears newer = 0 := by
  intro blank newer
  have above : s.run script = ((blank.run script).1, (blank.run script).2.above s.journal) :=
    LinkState.run_above script blank s.journal
  have kept := (LinkState.emits_run script blank).keep
    (P := fun s' => clears s'.journal = 0) (fun emission same => (clears_emission emission).trans
      same) rfl
  rw [above]
  exact ⟨rfl, rfl, kept⟩

theorem posts_sendMessage (letter : Letter) {s : LinkState δ ω} (port : Nat)
    (sent : (s.run (sendMessage letter.port letter.data letter.message)).1 = .ok ()) :
    Posts port s (s.run (sendMessage letter.port letter.data letter.message)).2
      ([letter].filter (·.port = port)) := by
  obtain ⟨outcome, written, ongoing⟩ :=
    run_written (sendMessage letter.port letter.data letter.message) s
  obtain ⟨mailable, accepted⟩ := sends_sendMessage letter (outcome ▸ sent)
  refine ⟨⟨_, written, ongoing, ?_⟩, ?_⟩
  · rw [accepted, show (tally ([] : List (FramedLink.Entry ω))).sends = [] from rfl,
      List.nil_append, forPort_frames mailable]
    split
    · next here => simp [here]
    · next other => simp [other]
  · intro other among
    obtain ⟨inside, here⟩ := List.mem_filter.mp among
    rw [List.mem_singleton.mp inside] at here ⊢
    exact ⟨mailable, of_decide_eq_true here⟩

/-- A mailing sends the letters that it keeps, and nothing else. -/
theorem posts_mailing (mailing : Mailing ω α) (port : Nat) (s : LinkState δ ω) :
    Posts port s (s.run mailing.script).2
      ((s.run mailing.script).1.2.filter (·.port = port)) := by
  induction mailing generalizing s with
  | done => exact .refl port s
  | post letter next ih =>
    rw [Mailing.script, LinkState.run_bind]
    rcases outcome : s.run (sendMessage letter.port letter.data letter.message) with ⟨sent, s'⟩
    cases sent with
    | ok done =>
      have first := posts_sendMessage letter port (congrArg Prod.fst outcome)
      rw [outcome] at first
      have whole := first.trans (ih (.ok ()) s')
      rw [← List.filter_append] at whole
      simp only [LinkState.run_bind]
      exact whole
    | error fault =>
      have same := sendMessage_refused (congrArg Prod.fst outcome)
      rw [outcome] at same
      simp only at same ⊢
      rw [same]
      exact ih (.error fault) s
  | status next ih => exact ih _ s
  | clock next ih => exact ih _ s
  | capacity next ih => exact ih _ s
  | remark r next ih => exact (Posts.note s (.left (.remarked r)) trivial).trans (ih _)

private theorem posts_sendSegment {place port : Nat} (other : place ≠ port) (segment : Segment)
    (data : Nat) (payload : Bytes) (s : LinkState δ ω) :
    Posts port s (s.run (sendSegment place segment data payload)).2 [] := by
  obtain ⟨outcome, written, ongoing⟩ := run_written (sendSegment place segment data payload) s
  cases sent : (s.run (sendSegment place segment data payload)).1 with
  | ok done =>
    obtain ⟨valid, accepted⟩ := sends_sendSegment (outcome ▸ sent)
    refine ⟨⟨_, written, ongoing, ?_⟩, nofun⟩
    rw [accepted, show (tally ([] : List (FramedLink.Entry ω))).sends = [] from rfl,
      List.nil_append]
    simp [forPort, Address.unpack_pack valid, other]
  | error fault =>
    rw [sendSegment_refused sent]
    exact .refl port s

private theorem posts_service {port : Nat} (other : port ≠ servicePort) (directory : Directory)
    (service : Service ω) (address : Address) (payload : Bytes) (s : LinkState δ ω) :
    Posts port s (s.run (service.take directory address payload)).2 [] := by
  have none := Posts.refl port s
  have respond (question : Question) (argument : Nat) (body : Bytes) :=
    posts_sendSegment other.symm .single (question.portData true argument) body s
  unfold Service.take
  split
  · split
    · exact none
    · rw [LinkState.run_bind]
      change Posts port s (s.run (service.hear _ _ _)).2 []
      unfold Service.hear
      split
      · exact none
      · simp only [LinkState.run]
        split
        · exact none
        · exact Posts.note s (.left (.remarked _)) trivial
    · next question argument _ =>
      rw [LinkState.run_bind]
      cases question with
      | status => exact respond .status argument s.status.toBytes
      | echo => exact respond .echo argument payload
      | timeSync => exact respond .timeSync argument _
      | description => exact respond .description argument _
  · exact none

/-- A handler that was called is of the same kind, and keeps what it sent with success. -/
inductive Keeps {κ : Type} : Service ω ⊕ MessagePort (Recorded (Mailbox κ)) →
    Service ω ⊕ MessagePort (Recorded (Mailbox κ)) → List Letter → Prop where
  | service (service service' : Service ω) : Keeps (.inl service) (.inl service') []
  | port {m m' : MessagePort (Recorded (Mailbox κ))} {sent : List Letter}
      (kept : m'.consumer.consumer.sent = m.consumer.consumer.sent ++ sent) :
      Keeps (.inr m) (.inr m') sent

/-- A handler sends to a port what it keeps, unless it is a service and the port its own. -/
theorem posts_onSegment {κ : Type} [Mailer κ ω] {port : Nat} (directory : Directory)
    (handler : Service ω ⊕ MessagePort (Recorded (Mailbox κ)))
    (unserved : port = servicePort → handler.isRight) (address : Address) (payload : Bytes)
    (s : LinkState δ ω) :
    ∃ sent, Keeps handler (s.run (Handler.onSegment directory handler address payload)).1 sent ∧
      Posts port s (s.run (Handler.onSegment directory handler address payload)).2
        (sent.filter (·.port = port)) := by
  rcases handler with service | m
  · have other : port ≠ servicePort := fun same => Bool.false_ne_true (unserved same)
    simp only [Handler.onSegment, LinkState.run_bind]
    exact ⟨[], .service _ _, posts_service other directory service address payload s⟩
  · simp only [Handler.onSegment, LinkState.run_bind]
    unfold MessagePort.take
    rcases m.reassembly.push address.segment payload with ⟨fault | _ | message, reassembly⟩
    · exact ⟨[], .port (List.append_nil _).symm, .refl port s⟩
    · exact ⟨[], .port (List.append_nil _).symm, .refl port s⟩
    · simp only [Consumer.onMessage, LinkState.run_bind]
      exact ⟨_, .port rfl, posts_mailing _ port s⟩

end Posting

/-! ## Post offices -/

namespace PostOffice

variable {κ : Type} {o o' : PostOffice κ ω}

/-- The frames that are accepted for a port in each epoch are those of letters that were sent, by
the application (`posted`) or by a message port. -/
def Lettered (port : Nat) (posted : List Letter) (o : PostOffice κ ω)
    (journal : List (FramedLink.Entry ω)) : Prop :=
  ∀ epoch, ∃ letters : List Letter, forPort port (ofEpoch epoch journal).sends =
      letters.flatMap frames ∧
    ∀ letter ∈ letters, Mailable letter ∧ letter.port = port ∧ (letter ∈ posted ∨ o.Sent letter)

/-- What a post office sends to a port, and what it keeps of it, are the same: no service answers
there. -/
structure Posting (port : Nat) (posted : List Letter) (o : PostOffice κ ω) (s : LinkState δ ω) :
    Prop where
  sorted : o.Sorted
  unserved : port = servicePort → o.Unserved
  lettered : o.Lettered port posted s.journal

variable {port : Nat} {posted : List Letter} {s s' : LinkState δ ω}

theorem Posting.posts (h : Posting port posted o s) {letters : List Letter}
    (posts : Posts port s s' letters) {posted' : List Letter} (sorted : o'.Sorted)
    (unserved : port = servicePort → o'.Unserved)
    (kept : ∀ letter, letter ∈ posted ∨ o.Sent letter → letter ∈ posted' ∨ o'.Sent letter)
    (more : ∀ letter ∈ letters, letter ∈ posted' ∨ o'.Sent letter) :
    Posting port posted' o' s' := by
  refine ⟨sorted, unserved, fun epoch => ?_⟩
  obtain ⟨before, framed, fine⟩ := h.lettered epoch
  obtain ⟨⟨newer, written, ongoing, added⟩, mailable⟩ := posts
  have kept' : ∀ letter ∈ before, Mailable letter ∧ letter.port = port ∧
      (letter ∈ posted' ∨ o'.Sent letter) := fun letter among =>
    ⟨(fine letter among).1, (fine letter among).2.1, kept letter (fine letter among).2.2⟩
  rw [written, sends_append ongoing, forPort_append, framed]
  split
  · refine ⟨before ++ letters, by rw [added, List.flatMap_append], fun letter among => ?_⟩
    rcases List.mem_append.mp among with first | second
    · exact kept' letter first
    · exact ⟨(mailable letter second).1, (mailable letter second).2, more letter second⟩
  · exact ⟨before, List.append_nil _, kept'⟩

section Inserting

variable {e : Entry (Service ω ⊕ MessagePort (Recorded (Mailbox κ)))}
  {handler : Service ω ⊕ MessagePort (Recorded (Mailbox κ))} {sent : List Letter}
  (sorted : o.Sorted) (found : o.find? e.port = some e) (keeps : Keeps e.handler handler sent)
include sorted found keeps

private theorem sent_insert {letter : Letter} (before : o.Sent letter) :
    PostOffice.Sent (o.insert { e with handler }) letter := by
  obtain ⟨port, held, m, there, same, among⟩ := before
  by_cases here : e.port = port
  · obtain rfl : e = held := by
      rw [← here, found] at there
      exact Option.some.inj there
    rw [same] at keeps
    cases keeps with
    | @port _ m' _ kept =>
      refine ⟨port, { e with handler := .inr m' }, m', ?_, rfl, kept ▸ List.mem_append_left _ among⟩
      rw [Table.find?_insert sorted, if_pos here]
  · refine ⟨port, held, m, ?_, same, among⟩
    rw [Table.find?_insert sorted, if_neg here]
    exact there

private theorem sent_insert_of_mem {letter : Letter} (among : letter ∈ sent) :
    PostOffice.Sent (o.insert { e with handler }) letter := by
  obtain ⟨place, description, old⟩ := e
  cases keeps with
  | service => cases among
  | @port _ m' _ kept =>
    refine ⟨place, ⟨place, description, .inr m'⟩, m', ?_, rfl, kept ▸ List.mem_append_right _ among⟩
    rw [Table.find?_insert sorted, if_pos rfl]

private theorem unserved_insert (unserved : o.Unserved) :
    PostOffice.Unserved (o.insert { e with handler }) := by
  intro port held there
  obtain ⟨place, description, old⟩ := e
  rw [Table.find?_insert sorted] at there
  split at there
  · obtain rfl := Option.some.inj there
    have before := unserved place _ found
    cases keeps with
    | service => exact before
    | port => rfl
  · exact unserved port held there

end Inserting

section Posting

variable [Driver δ] [Mailer κ ω]

theorem Posting.route (h : Posting port posted o s) (metadata : Nat) (payload : Bytes) :
    Posting port posted (s.run (o.route metadata payload)).1
      (s.run (o.route metadata payload)).2 := by
  rcases found : o.find? (Address.unpack metadata).port with _ | e
  · have same : s.run (o.route metadata payload) = ({ o with unrouted := o.unrouted + 1 }, s) := by
      unfold Table.route
      simp only [found]
      rfl
    rw [same]
    exact ⟨h.sorted, h.unserved, h.lettered⟩
  · have here := Table.port_of_find? found
    have there : o.find? e.port = some e := here ▸ found
    obtain ⟨sent, keeps, posts⟩ := posts_onSegment o.directory e.handler
      (fun same => h.unserved same e.port e there) (Address.unpack metadata) payload s
    have state : (s.run (o.route metadata payload)).2 =
        (s.run (Handler.onSegment o.directory e.handler (Address.unpack metadata) payload)).2 := by
      unfold Table.route
      simp only [found, LinkState.run_bind]
      rfl
    rw [Table.run_route_of_some found, state]
    refine h.posts posts (Table.sorted_insert h.sorted _)
      (fun same => unserved_insert h.sorted there keeps (h.unserved same))
      (fun letter before => before.imp_right (sent_insert h.sorted there keeps))
      fun letter among => .inr ?_
    exact sent_insert_of_mem h.sorted there keeps (List.mem_filter.mp among).1

omit [Driver δ] [Mailer κ ω] in
theorem Posting.heed (h : Posting port posted o s) (event : Event) :
    Posting port posted (o.heed event) s := by
  refine h.posts (.refl port s) (Table.sorted_heed h.sorted event) (fun same => ?_)
    (fun letter before => before.imp_right ?_) nofun
  · intro place held found
    rw [Table.find?_heed] at found
    obtain ⟨e, before, rfl⟩ := Option.map_eq_some_iff.mp found
    have kind := h.unserved same place e before
    cases handler : e.handler <;> simp_all
  · rintro ⟨place, e, m, found, handler, among⟩
    refine ⟨place, { e with handler := e.handler.map id (·.heed event) }, m.heed event, ?_, ?_, ?_⟩
    · rw [Table.find?_heed, found]
      rfl
    · simp only [handler]
      rfl
    · unfold MessagePort.heed
      split <;> exact among

omit [Driver δ] [Mailer κ ω] in
theorem Posting.same (h : Posting port posted o s)
    (same : ∀ epoch, (ofEpoch epoch s'.journal).sends = (ofEpoch epoch s.journal).sends) :
    Posting port posted o s' := by
  refine ⟨h.sorted, h.unserved, fun epoch => ?_⟩
  rw [same]
  exact h.lettered epoch

omit [Mailer κ ω] in
theorem Posting.sendMessage (h : Posting port posted o s) (letter : Letter) :
    let sent := s.run (Port.sendMessage letter.port letter.data letter.message)
    Posting port (match sent.1 with | .ok () => posted ++ [letter] | .error _ => posted) o
      sent.2 := by
  intro sent
  cases outcome : sent.1 with
  | ok =>
    refine h.posts (posts_sendMessage letter port outcome) h.sorted h.unserved
      (fun other before => before.imp_left (List.mem_append_left _)) fun other among => .inl ?_
    exact List.mem_append_right _ (List.mem_filter.mp among).1
  | error fault =>
    have same : sent.2 = s := sendMessage_refused outcome
    rw [same]
    exact h

omit [Driver δ] [Mailer κ ω] in
theorem Posting.restarted (h : Posting port posted o s) : Posting port posted o s.restarted :=
  h.same fun epoch => (sends_cons (by simp) epoch _).trans (sends_cons (by simp) epoch s.journal)

/-- Whatever a link takes, what a post office sends is what it keeps. -/
theorem attending_posting (port : Nat) (posted : List Letter) :
    LinkState.Attending (δ := δ) Table.upper fun _ (o : PostOffice κ ω) s =>
      Posting port posted o s where
  flush := by
    intro o s h
    refine h.same fun epoch => ?_
    obtain ⟨newer, outward, written⟩ := LinkState.journal_flush s
    rw [written, ofEpoch_append_idle fun entry among => (outward entry among).idle]
  reaction := by
    intro o s s' happening calls reaction h
    refine h.same fun epoch => ?_
    cases reaction with
    | accept => rfl
    | again => rfl
    | ask => rfl
    | pass => rfl
    | keep => rfl
    | release => exact sends_cons (by simp) epoch s.journal
    | resume => exact sends_cons (by simp) epoch s.journal
    | request => exact sends_cons (by simp) epoch s.journal
    | response => rfl
    | lost => rfl
  tell := by
    rintro ⟨o, s⟩ call due h
    cases call with
    | event event =>
      have told : LinkState.tell Table.upper (o, s) (.event event) =
          (o.heed event, s.log (.raised event)) := Table.run_tell o event _
      rw [told]
      have logged : Posting port posted o (s.log (.raised event)) :=
        h.same fun epoch => sends_cons (by simp) epoch s.journal
      exact logged.heed event
    | data metadata payload =>
      have logged : Posting port posted o (s.log (.delivered metadata payload)) :=
        h.same fun epoch => sends_cons (by simp) epoch s.journal
      exact logged.route metadata payload
  counted _ h := ⟨h.sorted, h.unserved, h.lettered⟩

end Posting

end PostOffice

end Port

end FramedLink
