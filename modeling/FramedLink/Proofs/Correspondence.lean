import FramedLink.Proofs.Mailing
import FramedLink.Proofs.Standing

/-! # Correspondence

Two endpoints with message ports are joined by lines on which nothing is lost. On either side the
application and the message ports send messages, and either side may begin anew. As long as a side
that has begun anew takes nothing but requests and responses before the last response to its own
requests, every message that comes to a message port was sent to that port on the other side: the
segments of two messages are never put together.
-/

namespace FramedLink

open FramedLink.Journal FramedLink.LinkState FramedLink.Port
open Simulation (Side)
open Simulation.Exchange (Letter)

variable {δ κ η ω : Type}

namespace Station

/-- An endpoint at one end of the lines: its ports are the layer above its link. -/
def ofEndpoint (e : Endpoint (Line δ) η ω) : Station δ (Table (Service ω ⊕ η)) ω :=
  ⟨e.link, e.ports⟩

def endpoint (s : Station δ (Table (Service ω ⊕ η)) ω) : Endpoint (Line δ) η ω :=
  ⟨s.link, s.upper⟩

end Station

/-- What may happen to two endpoints that send messages to each other. -/
inductive Turn (δ : Type) where
  /-- The application sends a message. -/
  | post (side : Side) (letter : Letter)
  | process (side : Side)
  /-- The driver gets another state, with another clock and other space. -/
  | tune (side : Side) (driver : δ)
  /-- The next bytes from one side arrive at the other. -/
  | deliver (source : Side) (count : Nat)
  | reset (side : Side)

/-- Two endpoints that send messages to each other. -/
structure Correspondence (δ κ ω : Type) where
  pair : Pair δ (PostOffice κ ω) ω
  /-- The messages that the application of each side has sent with success. -/
  posted : Side → List Letter := fun _ => []

namespace Correspondence

section Running

variable [Driver δ] [Mailer κ ω]

def step (c : Correspondence δ κ ω) : Turn δ → Correspondence δ κ ω
  | .post side letter =>
    let sent := (c.pair side).endpoint.sendMessage letter.port letter.data letter.message
    { pair := c.pair.change side fun _ => .ofEndpoint sent.2
      posted := Function.update c.posted side <|
        match sent.1 with | .ok () => c.posted side ++ [letter] | .error _ => c.posted side }
  | .process side => { c with pair := c.pair.change side fun s => .ofEndpoint s.endpoint.process }
  | .tune side driver =>
    { c with pair := c.pair.change side fun s => s.setLine { s.line with driver } }
  | .deliver source count => { c with pair := c.pair.deliver (fun _ => Table.upper) source count }
  | .reset side => { c with pair := c.pair.change side fun s => .ofEndpoint s.endpoint.reset }

def run (c : Correspondence δ κ ω) (turns : List (Turn δ)) : Correspondence δ κ ω :=
  turns.foldl step c

/-- An endpoint begins anew between the frames that arrive at it. As long as it waits for the
responses to its requests, nothing but requests and responses arrives. -/
def Admits (c : Correspondence δ κ ω) (awaiting : Side → Nat) : Turn δ → Prop
  | .post .. | .process _ | .tune .. => True
  | .deliver source count => (c.pair.handshake awaiting source count).isSome
  | .reset side => (c.pair side.other).line.arrived = 0

instance (c : Correspondence δ κ ω) (awaiting : Side → Nat) :
    ∀ turn, Decidable (c.Admits awaiting turn)
  | .post .. | .process _ | .tune .. => inferInstanceAs (Decidable True)
  | .deliver .. => inferInstanceAs (Decidable (_ = true))
  | .reset _ => Nat.decEq _ 0

/-- How many responses the sides wait for after a turn. A request that waits is replaced by the next
one, so there is one response to both. -/
def awaitingAfter (c : Correspondence δ κ ω) (awaiting : Side → Nat) : Turn δ → Side → Nat
  | .deliver source count =>
    match c.pair.handshake awaiting source count with
    | some after => fun side =>
      if side = source.other then after.awaiting else awaiting side - after.dropped
    | none => awaiting
  | .reset one => fun side =>
    if side = one then if (c.pair one).link.state.Asks then awaiting one else awaiting one + 1
    else awaiting side
  | _ => awaiting

/-- Every one of the turns is admitted where it is made. -/
def Orderly : Correspondence δ κ ω → (awaiting : Side → Nat) → List (Turn δ) → Prop
  | _, _, [] => True
  | c, awaiting, turn :: rest =>
    c.Admits awaiting turn ∧ Orderly (c.step turn) (c.awaitingAfter awaiting turn) rest

instance decidableOrderly : ∀ (c : Correspondence δ κ ω) (awaiting : Side → Nat) turns,
    Decidable (c.Orderly awaiting turns)
  | _, _, [] => inferInstanceAs (Decidable True)
  | c, awaiting, turn :: rest =>
    have := decidableOrderly (c.step turn) (c.awaitingAfter awaiting turn) rest
    inferInstanceAs (Decidable (_ ∧ _))

end Running

end Correspondence

/-! ## One side -/

namespace Port.PostOffice

/-- Nothing has come to the message ports, and nothing was sent by them. -/
structure Fresh (o : PostOffice κ ω) : Prop where
  sorted : o.Sorted
  unused : ∀ port e m, o.find? port = some e → e.handler = .inr m →
    m.consumer.letters = [] ∧ m.consumer.consumer.sent = []

/-- The inboxes of a post office are what the journal of its link tells, and what is sent is kept.
The handlers at first were those of `office`, and the application has sent what was `posted`. -/
structure Honest (office : PostOffice κ ω) (posted : List Letter)
    (s : Station δ (PostOffice κ ω) ω) : Prop where
  framed : s.link.state.Framed
  reads : Table.Reads office [] s.upper s.link.state
  posting : ∀ port, (port = servicePort → office.Unserved) →
    Posting port posted s.upper s.link.state

theorem quiet [Driver δ] [Mailer κ ω] : (Table.upper : Upper (PostOffice κ ω) ω).Quiet δ :=
  fun o event s => congrArg Prod.snd (Table.run_tell o event s)

namespace Honest

variable {office : PostOffice κ ω} {posted : List Letter} {s : Station δ (PostOffice κ ω) ω}

theorem setLine (h : Honest office posted s) {line : Line δ}
    (fewer : ∀ item ∈ line.items, item ∈ s.line.items) : Honest office posted (s.setLine line) where
  framed := ⟨h.framed.stocked, h.framed.images, fun item among =>
    h.framed.items item (fewer item among)⟩
  reads := h.reads
  posting port unserved := (h.posting port unserved).same fun _ => rfl

variable [Driver δ]

theorem post (h : Honest office posted s) (letter : Letter) :
    let sent := s.endpoint.sendMessage letter.port letter.data letter.message
    Honest office (match sent.1 with | .ok () => posted ++ [letter] | .error _ => posted)
      (.ofEndpoint sent.2) := by
  intro sent
  have utters : Utters s.link.state sent.2.link.state := utters_run _ _
  exact {
    framed := h.framed.emits utters.emits
    reads := h.reads.same (Table.read_utters utters)
    posting := fun port unserved => (h.posting port unserved).sendMessage letter }

variable [Mailer κ ω]

theorem reset_eq (s : Station δ (PostOffice κ ω) ω) :
    Station.ofEndpoint s.endpoint.reset =
      { link := s.link.reset, upper := s.upper.heed .reset } := by
  have told := Table.run_tell s.upper .reset s.link.reset.state
  exact congrArg (fun result : PostOffice κ ω × LinkState (Line δ) ω =>
    (⟨⟨s.link.reset.framer, result.2⟩, result.1⟩ : Station δ (PostOffice κ ω) ω)) told

variable (h : Honest office posted s)
include h

theorem process : Honest office posted (.ofEndpoint s.endpoint.process) := by
  have enduring := enduring_framed (δ := δ) (Table.upper : Upper (PostOffice κ ω) ω)
  have reading := Table.attending_reads (δ := Line δ) office
  have read : Table.Reads office [] s.upper s.link.state.flush := reading.flush h.reads
  exact {
    framed := enduring.checkTimeout (u := s.upper) (h.framed.emits (emits_flush _))
    reads := reading.checkTimeout (fun _ reads => reads) (fun reads => reads) read
    posting := fun port unserved => (attending_posting port posted).checkTimeout
      (fun _ posting => posting.same fun _ => rfl) (fun posting => posting.same fun _ => rfl)
      ((attending_posting port posted).flush (h.posting port unserved)) }

theorem receive (chunk : Bytes) :
    Honest office posted
      { link := (s.link.receive Table.upper s.upper chunk).2
        upper := (s.link.receive Table.upper s.upper chunk).1 } where
  framed := (enduring_framed Table.upper).attending.receive chunk (s.upper, s.link) h.framed
  reads := (Table.attending_reads office).receive chunk (s.upper, s.link) h.reads
  posting port unserved :=
    (attending_posting port posted).receive chunk (s.upper, s.link) (h.posting port unserved)

theorem reset : Honest office posted (.ofEndpoint s.endpoint.reset) := by
  have enduring := enduring_framed (δ := δ) (Table.upper : Upper (PostOffice κ ω) ω)
  have restarted : s.link.state.restarted.Framed := enduring.restarted (u := s.upper) h.framed
  rw [reset_eq]
  exact {
    framed := restarted.emits (emits_flush _)
    reads := h.reads.reset
    posting := fun port unserved =>
      ((attending_posting port posted).flush (h.posting port unserved).restarted).heed .reset }

end Honest

end Port.PostOffice

/-! ## Both sides -/

namespace Correspondence

/-- The links stand for links that agree, and either side is honest. -/
structure Faithful (office : Side → PostOffice κ ω) (awaiting : Side → Nat)
    (c : Correspondence δ κ ω) : Prop where
  accords : c.pair.Accords awaiting
  honest : ∀ side, (office side).Honest (c.posted side) (c.pair side)

variable {c : Correspondence δ κ ω} {office : Side → PostOffice κ ω} {awaiting : Side → Nat}

theorem Faithful.change (h : c.Faithful office awaiting) (side : Side)
    {f : Station δ (PostOffice κ ω) ω → Station δ (PostOffice κ ω) ω} {awaiting' : Side → Nat}
    {posted : List Letter} (accords : (c.pair.change side f).Accords awaiting')
    (here : (office side).Honest posted (f (c.pair side))) :
    Faithful office awaiting' ⟨c.pair.change side f, Function.update c.posted side posted⟩ := by
  refine ⟨accords, fun one => ?_⟩
  change (office one).Honest (Function.update c.posted side posted one) (c.pair.change side f one)
  rcases Side.eq_or_other_eq side one with rfl | rfl
  · rw [Pair.change_same, Function.update_self]
    exact here
  · have other := Side.other_ne side
    rw [Pair.change_of_ne _ other, Function.update_of_ne other]
    exact h.honest side.other

variable [Driver δ] [Mailer κ ω]

theorem Faithful.deliver (h : c.Faithful office awaiting) (source : Side) {count : Nat}
    (admitted : c.Admits awaiting (.deliver source count)) :
    Faithful office (c.awaitingAfter awaiting (.deliver source count))
      { c with pair := c.pair.deliver (fun _ => Table.upper) source count } := by
  obtain ⟨after, heard⟩ := Option.isSome_iff_exists.mp admitted
  have accords := h.accords.deliver (fun _ => Table.upper) source PostOffice.quiet
    (h.honest source).framed heard
  rw [awaitingAfter, heard]
  refine ⟨accords, fun one => ?_⟩
  have other := Side.other_ne source
  have left : (office source).Honest (c.posted source)
      ((c.pair source).setLine ((c.pair source).line.take count).2) :=
    (h.honest source).setLine fun item among => Line.mem_beyond among
  change (office one).Honest (c.posted one) (c.pair.deliver (fun _ => Table.upper) source count one)
  unfold Pair.deliver
  generalize (c.pair source).line.take count = taken at left ⊢
  dsimp only
  rcases Side.eq_or_other_eq source one with rfl | rfl
  · rw [Pair.change_of_ne _ other.symm, Pair.change_same]
    exact left
  · rw [Pair.change_same, Pair.change_of_ne _ other]
    exact (h.honest source.other).receive _

/-- With every turn that is admitted, the links go on standing for links that agree. -/
theorem Faithful.step (h : c.Faithful office awaiting) {turn : Turn δ}
    (admitted : c.Admits awaiting turn) :
    (c.step turn).Faithful office (c.awaitingAfter awaiting turn) := by
  have unposted {side : Side} {f : Station δ (PostOffice κ ω) ω → Station δ (PostOffice κ ω) ω}
      {awaiting' : Side → Nat} (accords : (c.pair.change side f).Accords awaiting')
      (here : (office side).Honest (c.posted side) (f (c.pair side))) :
      Faithful office awaiting' { c with pair := c.pair.change side f } := by
    have after := h.change side accords here
    rwa [Function.update_eq_self] at after
  cases turn with
  | post side letter =>
    refine h.change side (h.accords.act side _ rfl fun stands => ?_)
      ((h.honest side).post letter)
    exact stands.utters (utters_run _ _)
  | process side =>
    refine unposted (h.accords.act side _ rfl fun stands => ?_) (h.honest side).process
    exact stands.flush.checkTimeout _ _
  | tune side driver =>
    refine unposted (h.accords.act side _ rfl fun stands => ?_)
      ((h.honest side).setLine fun _ => id)
    exact stands.same rfl rfl rfl rfl rfl rfl rfl rfl
  | deliver source count => exact h.deliver source admitted
  | reset side =>
    refine unposted (h.accords.reset side ?_ admitted) (h.honest side).reset
    exact congrArg Station.link (PostOffice.Honest.reset_eq (c.pair side))

theorem Faithful.run (h : c.Faithful office awaiting) {turns : List (Turn δ)}
    (orderly : c.Orderly awaiting turns) :
    ∃ awaiting', (c.run turns).Faithful office awaiting' := by
  induction turns generalizing c awaiting with
  | nil => exact ⟨awaiting, h⟩
  | cons turn rest ih => exact ih (h.step orderly.1) orderly.2

omit [Driver δ] [Mailer κ ω] in
theorem faithful_start {config : Side → Config} {driver : Side → δ} {p : Pair δ (PostOffice κ ω) ω}
    (started : Pair.start config driver office = .ok p) (fresh : ∀ side, (office side).Fresh) :
    Faithful office (fun _ => 0) { pair := p } := by
  refine ⟨Pair.accords_start started, fun side => ?_⟩
  obtain ⟨valid, rfl⟩ := Pair.start_eq_ok_iff.mp started
  exact {
    framed := ⟨⟨config side, rfl, rfl, rfl, rfl, Nat.zero_le _, nofun⟩, nofun, nofun⟩
    reads := .start (fresh side).sorted rfl
    posting := fun port unserved =>
      ⟨(fresh side).sorted, unserved, fun _ => ⟨[], rfl, nofun⟩⟩ }

omit [Driver δ] [Mailer κ ω] in
/-- Every message that has come to a message port was sent with success to that port, by the
application or by a message port of the other side. -/
theorem Faithful.received (h : c.Faithful office awaiting) {side : Side} {port : Nat}
    (fresh : (office side).Fresh) (unserved : port = servicePort → (office side.other).Unserved)
    {inbox : Inbox} (held : (c.pair side).upper.inbox? port = some inbox) :
    ∀ letter ∈ inbox.letters, letter.port = port ∧
      (letter ∈ c.posted side.other ∨ (c.pair side.other).upper.Sent letter) := by
  have read := (h.honest side).reads.2 port
  rw [held] at read
  obtain ⟨first, before, same⟩ := Option.map_eq_some_iff.mp read.symm
  obtain ⟨e', m', found', handler', rfl⟩ := Table.inbox?_eq_some_iff.mp before
  have unused : m'.inbox.letters = [] := (fresh.unused port e' m' found' handler').1
  change Inbox.read port m'.inbox (c.pair side).link.state.journal = inbox at same
  rw [← same]
  refine Inbox.letters_read (fun letter among => ?_)
    fun epoch heard inbox part fine letter got => ?_
  · rw [unused] at among
    cases among
  · obtain ⟨epoch', relayed⟩ := h.accords.relays side epoch
    obtain ⟨letters, framed, kept⟩ :=
      ((h.honest side.other).posting port unserved).lettered epoch'
    have whole : forPort port heard <+: letters.flatMap frames :=
      framed ▸ (part.trans relayed).filter _
    rcases Inbox.letters_of_prefix (fun letter among => (kept letter among).1) whole got with
      before | among
    · exact fine letter before
    · exact (kept letter among).2

/-- As long as each side that has begun anew takes nothing but requests and responses before the
last response to its own requests, every message that comes to a message port was sent with success
to that port by the other side. The segments of two messages are never put together, whatever space
the drivers have. The service answers at its own port, so for this port there has to be none on the
other side. -/
theorem sent_of_received {config : Side → Config} {driver : Side → δ}
    {p : Pair δ (PostOffice κ ω) ω} (started : Pair.start config driver office = .ok p)
    (fresh : ∀ side, (office side).Fresh) {turns : List (Turn δ)}
    (orderly : Orderly { pair := p } (fun _ => 0) turns) {side : Side} {port : Nat}
    (unserved : port = servicePort → (office side.other).Unserved)
    {inbox : Inbox}
    (held : ((run { pair := p } turns).pair side).upper.inbox? port = some inbox) :
    ∀ letter ∈ inbox.letters, letter.port = port ∧
      (letter ∈ (run { pair := p } turns).posted side.other ∨
        ((run { pair := p } turns).pair side.other).upper.Sent letter) := by
  obtain ⟨awaiting, faithful⟩ := (faithful_start started fresh).run orderly
  exact faithful.received (fresh side) unserved held

end Correspondence

/-! ## Runs -/

section Runs

open Simulation (Reader Remark Wire)

/-- A reader that answers sends the first byte of every message back. -/
instance : Mailer Reader Remark where
  onMessage _ reader port data message :=
    if reader.answers then .post ⟨port, data, message.take 1⟩ fun _ => .done reader
    else .done reader

/-- A post office with a reader at one port. -/
def readerAt (port : Nat) (answers : Bool) : PostOffice Reader Remark :=
  { entries := [⟨port, none, .inr (.ofLimit 1000 ⟨⟨⟨answers⟩, []⟩, []⟩)⟩] }

private theorem Port.PostOffice.not_sent {o : PostOffice κ ω} (unsent : ∀ e ∈ o.entries,
    e.handler.elim (fun _ => []) (·.consumer.consumer.sent) = []) (letter : Letter) :
    ¬ o.Sent letter := by
  rintro ⟨port, e, m, found, handler, among⟩
  have none := unsent e (List.mem_of_find?_eq_some found)
  rw [handler] at none
  change m.consumer.consumer.sent = [] at none
  rw [none] at among
  cases among

private theorem fresh_readerAt (port : Nat) (answers : Bool) : (readerAt port answers).Fresh where
  sorted := List.pairwise_singleton _ _
  unused place e m found handler := by
    have here := List.mem_of_find?_eq_some found
    rw [List.mem_singleton.mp here] at handler
    cases handler
    exact ⟨rfl, rfl⟩

namespace Correspondence

set_option maxRecDepth 4000 in
/-- A message of two segments is read and answered. One side begins anew while its driver has no
space, and a message that it accepts then is lost when the request of the other side comes first.
Later both sides begin anew at once, one of them twice. -/
theorem sent_of_received_renewed :
    let office (side : Side) := readerAt 1 (side = .b)
    let p : Pair Wire (PostOffice Reader Remark) Remark :=
      Pair.fresh (fun _ => {}) (fun _ => {}) office
    let long : Bytes := List.replicate 257 1
    let turns : List (Turn Wire) := [.post .a ⟨1, 7, long⟩, .deliver .a 281, .deliver .b 29,
      .deliver .a 8, .tune .a { budget := some 0 }, .reset .a, .post .a ⟨1, 7, [2]⟩, .reset .b,
      .deliver .b 8, .post .a ⟨1, 8, [3]⟩, .tune .a {}, .process .a, .deliver .a 21, .deliver .b 21,
      .deliver .a 8, .reset .a, .reset .a, .reset .b, .deliver .a 16, .deliver .b 16,
      .post .a ⟨1, 9, [4]⟩, .deliver .a 21]
    let c := run { pair := p } turns
    let inbox : Inbox := ⟨{ limit := 1000 }, 9, [⟨1, 7, long⟩, ⟨1, 8, [3]⟩, ⟨1, 9, [4]⟩]⟩
    Pair.start (fun _ => {}) (fun _ => {}) office = .ok p ∧
      (c.pair .b).upper.inbox? 1 = some inbox ∧
      ∀ letter ∈ inbox.letters, letter.port = 1 ∧
        (letter ∈ c.posted (Side.b).other ∨ (c.pair (Side.b).other).upper.Sent letter) := by
  intro office p long turns c inbox
  have started : Pair.start (fun _ => {}) (fun _ => {}) office = .ok p :=
    Pair.start_eq_ok_iff.mpr ⟨fun _ => Config.valid_default, rfl⟩
  have orderly : Orderly { pair := p } (fun _ => 0) turns := by decide +kernel
  have held : (c.pair .b).upper.inbox? 1 = some inbox := by decide +kernel
  refine ⟨started, held, sent_of_received started (fun side => ?_) orderly ?_ held⟩
  · exact fresh_readerAt 1 (side = .b)
  · intro first
    cases first

set_option maxRecDepth 4000 in
/-- The second segment of a message waits when the other side begins anew, which takes the first one
for a new frame before its request is answered. The next message begins with a frame that it takes
for the same one again, so the last segment of this message ends the first one. -/
theorem received_mixed :
    let office (_ : Side) := readerAt 1 false
    let p : Pair Wire (PostOffice Reader Remark) Remark :=
      Pair.fresh (fun _ => {}) (fun _ => {}) office
    let first : Bytes := List.replicate 257 1
    let second : Bytes := List.replicate 257 2
    let mixed : Letter := ⟨1, 7, first.take 256 ++ second.drop 256⟩
    let c := run { pair := p } [.tune .a { budget := some 268 }, .post .a ⟨1, 7, first⟩, .reset .b,
      .deliver .a 268, .deliver .b 16, .tune .a {}, .post .a ⟨1, 7, second⟩, .deliver .a 289]
    Pair.start (fun _ => {}) (fun _ => {}) office = .ok p ∧
      ((c.pair .b).upper.inbox? 1).map (·.letters) = some [mixed] ∧
      (∀ letter ∈ c.posted .a, letter.message ≠ mixed.message) ∧
      ∀ letter, ¬ (c.pair .a).upper.Sent letter := by
  intro office p first second mixed c
  have started : Pair.start (fun _ => {}) (fun _ => {}) office = .ok p :=
    Pair.start_eq_ok_iff.mpr ⟨fun _ => Config.valid_default, rfl⟩
  obtain ⟨held, foreign, unsent⟩ :
      ((c.pair .b).upper.inbox? 1).map (·.letters) = some [mixed] ∧
        (∀ letter ∈ c.posted .a, letter.message ≠ mixed.message) ∧
        ∀ e ∈ (c.pair .a).upper.entries,
          e.handler.elim (fun _ => []) (·.consumer.consumer.sent) = [] := by
    decide +kernel
  exact ⟨started, held, foreign, PostOffice.not_sent unsent⟩

-- A side begins anew in the midst of a frame, and finds a segment in the payload that is left of
-- it.
example :
    let p : Pair Wire (PostOffice Reader Remark) Remark :=
      Pair.fresh (fun _ => {}) (fun _ => {}) fun _ => readerAt 1 false
    let segment : DataFrame := ⟨0, (Address.mk 1 .single 7).pack, [9]⟩
    let c := run { pair := p }
      [.post .a ⟨1, 7, [0] ++ segment.image ++ [0]⟩, .deliver .a 8, .reset .b, .deliver .a 14]
    ((c.pair .b).upper.inbox? 1).map (·.letters) = some [⟨1, 7, [9]⟩] := by
  decide +kernel

-- At its port, the service answers with what nobody has sent as a message.
example :
    let p : Pair Wire (PostOffice Reader Remark) Remark :=
      Pair.fresh (fun _ => {}) (fun _ => {}) fun
        | .a => readerAt servicePort false
        | .b => { entries := [⟨servicePort, none, .inl {}⟩] }
    let c := run { pair := p }
      [.post .a ⟨servicePort, Question.echo.portData false 0, [1]⟩, .deliver .a 13, .deliver .b 21]
    ((c.pair .a).upper.inbox? servicePort).map (·.letters) =
        some [⟨servicePort, Question.echo.portData true 0, [1]⟩] ∧ c.posted .b = [] := by
  decide +kernel

end Correspondence

end Runs

end FramedLink
