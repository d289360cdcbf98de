import FramedLink.Proofs.Messages
import FramedLink.Proofs.Reaching

/-! # The descriptions of ports

A port is described when a handler is put there, and the text has to fit into one frame. Whatever
the handlers do later, and whatever happens to the link, the descriptions stay; so at any time each
of them fits into one frame, and a port is described as it was when a handler was last put there.
-/

namespace FramedLink.Port.Table

variable {η ω δ : Type}

/-- The port of an entry and its description. -/
def label (e : Entry η) : Nat × Option String := (e.port, e.description)

theorem directory_eq (t : Table η) (port : Nat) :
    t.directory port = ((t.entries.map label).find? (·.1 = port)).bind (·.2) := by
  rw [List.find?_map, Option.bind_map]
  rfl

theorem directory_insert {t : Table η} (sorted : t.Sorted) (e : Entry η) (port : Nat) :
    (t.insert e).directory port = if e.port = port then e.description else t.directory port := by
  rw [directory, find?_insert sorted]
  split <;> rfl

/-- A table where each port is described as in the directory. -/
structure Shows (directory : Directory) (t : Table η) : Prop where
  sorted : t.Sorted
  shown : t.directory = directory

theorem shows_self {t : Table η} (sorted : t.Sorted) : Shows t.directory t := ⟨sorted, rfl⟩

variable {directory : Directory} {t : Table η}

theorem Shows.relabelled (shows : Shows directory t) {t' : Table η}
    (same : t'.entries.map label = t.entries.map label) : Shows directory t' := by
  constructor
  · have sorted : (t.entries.map label).Pairwise (·.1 < ·.1) := List.pairwise_map.mpr shows.sorted
    rw [← same, List.pairwise_map] at sorted
    exact sorted
  · funext port
    rw [directory_eq, same, ← directory_eq, shows.shown]

theorem Shows.rehandled (shows : Shows directory t) {port : Nat} {e : Entry η}
    (found : t.find? port = some e) (handler : η) :
    Shows directory (t.insert { e with handler }) := by
  refine ⟨sorted_insert shows.sorted _, ?_⟩
  funext place
  rw [directory_insert shows.sorted, ← shows.shown]
  split
  · next same =>
    have here : e.port = place := same
    rw [Table.directory, ← here, port_of_find? found, found]
    rfl
  · rfl

variable [Driver δ] [Handler η ω]

private theorem labels_tellAll (directory : Directory) (event : Event) (entries : List (Entry η))
    (s : LinkState δ ω) :
    (s.run (tellAll directory event entries)).1.map label = entries.map label := by
  induction entries generalizing s with
  | nil => rfl
  | cons e rest ih =>
    simp only [tellAll, LinkState.run_bind, LinkState.run, List.map_cons]
    exact congrArg (label e :: ·) (ih _)

theorem Shows.tell (shows : Shows directory t) (event : Event) (s : LinkState δ ω) :
    Shows directory (s.run (t.tell event)).1 := by
  rw [Table.tell, LinkState.run_bind]
  exact shows.relabelled (labels_tellAll t.directory event t.entries s)

theorem Shows.route (shows : Shows directory t) (metadata : Nat) (payload : Bytes)
    (s : LinkState δ ω) : Shows directory (s.run (t.route metadata payload)).1 := by
  cases found : t.find? (Address.unpack metadata).port with
  | none =>
    rw [run_route_of_none found]
    exact shows.relabelled rfl
  | some e =>
    rw [run_route_of_some found]
    exact shows.rehandled found _

theorem lasting_shows (directory : Directory) :
    LinkState.Lasting (δ := δ) Table.upper fun (t : Table η) _ => Shows directory t where
  emission _ shows := shows
  reaction _ shows := shows
  told := by
    intro t s call shows
    cases call with
    | event event => exact shows.tell event (s.log (.raised event))
    | data metadata payload =>
      exact shows.route metadata payload (s.log (.delivered metadata payload))
  counted _ shows := shows
  disconnected shows := shows
  rewind shows := shows
  restarted shows := shows
  driver _ shows := shows

end FramedLink.Port.Table

/-! ## Endpoints -/

namespace FramedLink.Endpoint

open Port Port.Table

variable {δ η ω : Type} [Driver δ] [Handler η ω] {directory : Directory}

theorem shows_deed {e : Endpoint δ η ω} (shows : Shows directory e.ports) (deed : Deed δ) :
    Shows directory (e.deed deed).ports := by
  have act := (lasting_shows (η := Service ω ⊕ η) (δ := δ) directory).act
  cases deed with
  | send => exact shows
  | sendMessage => exact shows
  | ask => exact shows
  | receive chunk => exact act (.receive chunk) (e.ports, e.link) shows
  | process => exact act .process (e.ports, e.link) shows
  | tune => exact shows

/-- Every description fits into one frame. -/
structure Described (ports : Table (Service ω ⊕ η)) : Prop where
  sorted : ports.Sorted
  short : ∀ port text, ports.directory port = some text → text.utf8ByteSize ≤ Frame.maxPayload

omit [Handler η ω] in
theorem Described.shows {ports ports' : Table (Service ω ⊕ η)} (described : Described ports)
    (shows : Shows ports.directory ports') : Described ports' :=
  ⟨shows.sorted, fun port text there => described.short port text (shows.shown ▸ there)⟩

omit [Handler η ω] in
theorem Described.insert {ports : Table (Service ω ⊕ η)} (described : Described ports)
    {entry : Port.Entry (Service ω ⊕ η)}
    (short : ∀ text, entry.description = some text → text.utf8ByteSize ≤ Frame.maxPayload) :
    Described (ports.insert entry) := by
  refine ⟨sorted_insert described.sorted entry, fun port text there => ?_⟩
  rw [directory_insert described.sorted] at there
  split at there
  · exact short text there
  · exact described.short port text there

/-- Whatever an endpoint has been used for, its descriptions fit into one frame each. -/
theorem Reaches.described {start e : Endpoint δ η ω} (reaches : Reaches start e)
    (described : Described start.ports) : Described e.ports := by
  induction reaches with
  | start => exact described
  | @deed e _ deed ih => exact ih.shows (shows_deed (shows_self ih.sorted) deed)
  | @register e _ port description handler ih =>
    rcases register_cases e port description handler with ⟨put, short⟩ | ⟨fault, refused⟩
    · rw [put]
      exact ih.insert short
    · rw [refused]
      exact ih
  | @listen e _ listener ih => exact ih.insert fun text there => ih.short servicePort text there
  | @reset e _ ih => exact ih.shows ((shows_self ih.sorted).tell .reset e.link.reset.state)
  | beneath _ upper u act ih => exact ih

omit [Driver δ] [Handler η ω] in
theorem described_ofConfig {config : Config} {driver : δ} {start : Endpoint δ η ω}
    (started : ofConfig config driver = .ok start) : Described start.ports := by
  obtain ⟨l, -, rfl⟩ := ofConfig_eq_ok_iff.mp started
  refine ⟨List.pairwise_singleton _ _, fun port text there => ?_⟩
  unfold Table.directory Table.find? at there
  simp only [List.find?_cons, List.find?_nil] at there
  split at there
  · cases there
    decide
  · cases there

/-! ## What the ports were described with -/

/-- What an endpoint has been used for, told by the descriptions with which handlers were put at
ports, newest first. A new endpoint has put its service there. -/
inductive Registers (start : Endpoint δ η ω) :
    List (Nat × Option String) → Endpoint δ η ω → Prop where
  | start : Registers start [(servicePort, some serviceDescription)] start
  | deed {given : List (Nat × Option String)} {e : Endpoint δ η ω}
      (earlier : Registers start given e) (deed : Deed δ) : Registers start given (e.deed deed)
  | register {given : List (Nat × Option String)} {e : Endpoint δ η ω}
      (earlier : Registers start given e) {port : Nat} {description : Option String}
      {handler : Service ω ⊕ η} (accepted : (e.register port description handler).1 = .ok ()) :
    Registers start ((port, description) :: given) (e.register port description handler).2
  | listen {given : List (Nat × Option String)} {e : Endpoint δ η ω}
      (earlier : Registers start given e) (listener : Reply → ω) :
    Registers start given (e.listen listener)
  | reset {given : List (Nat × Option String)} {e : Endpoint δ η ω}
      (earlier : Registers start given e) : Registers start given e.reset
  | beneath {given : List (Nat × Option String)} {e : Endpoint δ η ω} {υ : Type}
      (earlier : Registers start given e) (upper : Upper υ ω) (u : υ) (act : Act δ) :
    Registers start given { e with link := (Link.act upper (u, e.link) act).2 }

/-- The description that a port was given last. -/
def lastGiven (given : List (Nat × Option String)) : Directory := fun port =>
  (given.lookup port).join

omit [Driver δ] [Handler η ω] in
theorem lastGiven_cons (port : Nat) (description : Option String)
    (given : List (Nat × Option String)) (other : Nat) :
    lastGiven ((port, description) :: given) other =
      if port = other then description else lastGiven given other := by
  unfold lastGiven
  rw [List.lookup_cons]
  by_cases same : port = other
  · rw [if_pos same, beq_iff_eq.mpr same.symm]
    rfl
  · rw [if_neg same, beq_eq_false_iff_ne.mpr (Ne.symm same)]

variable {start e : Endpoint δ η ω} {given : List (Nat × Option String)}

theorem Registers.reaches (registers : Registers start given e) : Reaches start e := by
  induction registers with
  | start => exact .start
  | deed _ deed ih => exact .deed ih deed
  | @register _ _ _ port description handler _ ih => exact .register ih port description handler
  | listen _ listener ih => exact .listen ih listener
  | reset _ ih => exact .reset ih
  | beneath _ upper u act ih => exact .beneath ih upper u act

theorem Reaches.registers (reaches : Reaches start e) : ∃ given, Registers start given e := by
  induction reaches with
  | start => exact ⟨_, .start⟩
  | deed _ deed ih =>
    obtain ⟨given, registers⟩ := ih
    exact ⟨given, .deed registers deed⟩
  | @register e _ port description handler ih =>
    obtain ⟨given, registers⟩ := ih
    rcases register_cases e port description handler with ⟨put, -⟩ | ⟨fault, refused⟩
    · exact ⟨_, .register registers (congrArg Prod.fst put)⟩
    · rw [refused]
      exact ⟨given, registers⟩
  | listen _ listener ih =>
    obtain ⟨given, registers⟩ := ih
    exact ⟨given, .listen registers listener⟩
  | reset _ ih =>
    obtain ⟨given, registers⟩ := ih
    exact ⟨given, .reset registers⟩
  | beneath _ upper u act ih =>
    obtain ⟨given, registers⟩ := ih
    exact ⟨given, .beneath registers upper u act⟩

omit [Driver δ] [Handler η ω] in
theorem directory_ofConfig {config : Config} {driver : δ}
    (started : ofConfig config driver = .ok start) :
    start.ports.directory = lastGiven [(servicePort, some serviceDescription)] := by
  obtain ⟨l, -, rfl⟩ := ofConfig_eq_ok_iff.mp started
  funext port
  rw [lastGiven_cons]
  unfold Table.directory Table.find?
  by_cases here : servicePort = port
  · rw [if_pos here, List.find?_cons_of_pos (by simpa using here)]
    rfl
  · rw [if_neg here, List.find?_cons_of_neg (by simpa using here)]
    rfl

/-- At any time, a port is described as it was when a handler was last put there. -/
theorem Registers.directory_eq {config : Config} {driver : δ}
    (started : ofConfig config driver = .ok start) (registers : Registers start given e) :
    e.ports.directory = lastGiven given := by
  induction registers with
  | start => exact directory_ofConfig started
  | @deed given e earlier deed ih =>
    have sorted := (earlier.reaches.described (described_ofConfig started)).sorted
    exact (shows_deed (shows_self sorted) deed).shown.trans ih
  | @register given e earlier port description handler accepted ih =>
    have sorted := (earlier.reaches.described (described_ofConfig started)).sorted
    rcases register_cases e port description handler with ⟨put, -⟩ | ⟨fault, refused⟩
    · rw [put]
      funext other
      rw [directory_insert sorted, lastGiven_cons, ih]
    · rw [refused] at accepted
      cases accepted
  | @listen given e earlier listener ih =>
    have sorted := (earlier.reaches.described (described_ofConfig started)).sorted
    rw [← ih]
    funext other
    refine (directory_insert sorted _ other).trans ?_
    split
    · next here => exact congrArg e.ports.directory here
    · rfl
  | @reset given e earlier ih =>
    have sorted := (earlier.reaches.described (described_ofConfig started)).sorted
    exact ((shows_self sorted).tell .reset e.link.reset.state).shown.trans ih
  | beneath _ upper u act ih => exact ih

end FramedLink.Endpoint
