import FramedLink.Proofs.Hearing
import FramedLink.Proofs.Meeting

/-! # The endpoints there can be

An endpoint is worked with, gets handlers and loses them, is begun anew, and its link can be worked
with directly, below the ports. What lasts through every run of a link, whatever the layer above it,
holds of every endpoint that comes about in this way, and in every state in which a handler of such
an endpoint meets the link.
-/

namespace FramedLink

theorem LinkState.mem_stations {δ ω α : Type} [Driver δ] (script : Script ω α)
    (s : LinkState δ ω) : s ∈ stations script s := by
  cases script <;> exact List.mem_cons_self

end FramedLink

namespace FramedLink.Endpoint

open Port LinkState

variable {δ η ω : Type}

theorem ofConfig_eq_ok_iff {config : Config} {driver : δ} {e : Endpoint δ η ω} :
    ofConfig config driver = .ok e ↔ ∃ l, Link.ofConfig config driver = .ok l ∧
      e = ⟨l, { entries := [⟨servicePort, some serviceDescription, .inl {}⟩] }⟩ := by
  unfold ofConfig
  cases Link.ofConfig config driver with
  | ok l => simp [bind, Except.bind, pure, Except.pure, eq_comm]
  | error => simp [bind, Except.bind]

variable [Driver δ] [Handler η ω]

/-- The endpoints that come about when one is used. -/
inductive Reaches (start : Endpoint δ η ω) : Endpoint δ η ω → Prop where
  | start : Reaches start start
  | deed {e : Endpoint δ η ω} (earlier : Reaches start e) (deed : Deed δ) :
    Reaches start (e.deed deed)
  | register {e : Endpoint δ η ω} (earlier : Reaches start e) (port : Nat)
      (description : Option String) (handler : Service ω ⊕ η) :
    Reaches start (e.register port description handler).2
  | listen {e : Endpoint δ η ω} (earlier : Reaches start e) (listener : Reply → ω) :
    Reaches start (e.listen listener)
  | reset {e : Endpoint δ η ω} (earlier : Reaches start e) : Reaches start e.reset
  /-- The link is worked with directly, and another layer above it is called meanwhile. -/
  | beneath {e : Endpoint δ η ω} {υ : Type} (earlier : Reaches start e) (upper : Upper υ ω) (u : υ)
      (act : Act δ) :
    Reaches start { e with link := (Link.act upper (u, e.link) act).2 }

/-- The states in which the link of an endpoint is met: between two deeds, by a handler in the
middle of one, and by a handler that is told that the link was begun anew. -/
inductive Meets (start : Endpoint δ η ω) : LinkState δ ω → Prop where
  | between {e : Endpoint δ η ω} (reaches : Reaches start e) : Meets start e.link.state
  | within {e : Endpoint δ η ω} {act : Act δ} {ports : Table (Service ω ⊕ η)}
      {s t : LinkState δ ω} {call : Call} (reaches : Reaches start e)
      (calls : Link.Calls Table.upper (e.ports, e.link) act ports s call)
      (among : t ∈ stations (Table.upper.answer ports call) (s.log call.action)) : Meets start t
  | resetting {e : Endpoint δ η ω} {t : LinkState δ ω} (reaches : Reaches start e)
      (among : t ∈ stations (e.ports.tell .reset) e.link.reset.state) : Meets start t

omit [Driver δ] [Handler η ω] in
/-- A handler is put at its port with a description that fits into one frame, or nothing is
changed. -/
theorem register_cases (e : Endpoint δ η ω) (port : Nat) (description : Option String)
    (handler : Service ω ⊕ η) :
    (e.register port description handler =
        (.ok (), { e with ports := e.ports.insert ⟨port, description, handler⟩ }) ∧
      ∀ text, description = some text → text.utf8ByteSize ≤ Frame.maxPayload) ∨
    ∃ fault, e.register port description handler = (.error fault, e) := by
  unfold register
  simp only
  split
  · exact .inr ⟨_, rfl⟩
  · split
    · exact .inr ⟨_, rfl⟩
    · next short =>
      refine .inl ⟨rfl, ?_⟩
      rintro text rfl
      exact Nat.le_of_not_lt short

omit [Driver δ] [Handler η ω] in
@[simp] theorem register_link (e : Endpoint δ η ω) (port : Nat) (description : Option String)
    (handler : Service ω ⊕ η) : (e.register port description handler).2.link = e.link := by
  rcases register_cases e port description handler with ⟨put, -⟩ | ⟨fault, refused⟩
  · rw [put]
  · rw [refused]

section Lasting

variable {P : LinkState δ ω → Prop}
  (lasts : ∀ {υ : Type} (upper : Upper υ ω), Lasting upper fun _ s => P s)
include lasts

omit [Handler η ω] in
theorem lasting_emits {s s' : LinkState δ ω} (emits : Emits s s') (holds : P s) : P s' :=
  let idle : Upper Unit ω := ⟨fun u _ => .done u, fun u _ _ => .done u⟩
  (lasts idle).emits (u := ()) emits holds

omit [Handler η ω] in
theorem lasting_run {α : Type} (e : Endpoint δ η ω) (script : Script ω α)
    (holds : P e.link.state) : P (e.run script).2.link.state :=
  lasting_emits lasts (emits_run script e.link.state) holds

theorem lasting_reset (e : Endpoint δ η ω) (holds : P e.link.state) : P e.reset.link.state := by
  have upper := lasts (Table.upper (η := Service ω ⊕ η))
  have restarted : P e.link.reset.state := upper.act .reset (e.ports, e.link) holds
  exact upper.emits (u := e.ports) (emits_run (e.ports.tell .reset) e.link.reset.state) restarted

theorem lasting_deed (e : Endpoint δ η ω) (deed : Deed δ) (holds : P e.link.state) :
    P (e.deed deed).link.state := by
  have upper := lasts (Table.upper (η := Service ω ⊕ η))
  cases deed with
  | send port segment data payload => exact lasting_run lasts e _ holds
  | sendMessage port data message => exact lasting_run lasts e _ holds
  | ask question argument body => exact lasting_run lasts e _ holds
  | receive chunk => exact upper.act (.receive chunk) (e.ports, e.link) holds
  | process => exact upper.act .process (e.ports, e.link) holds
  | tune driver => exact upper.act (.tune driver) (e.ports, e.link) holds

/-- What lasts under every layer above holds of every endpoint there can be. -/
theorem Reaches.lasting {start e : Endpoint δ η ω} (reaches : Reaches start e)
    (holds : P start.link.state) : P e.link.state := by
  induction reaches with
  | start => exact holds
  | deed _ deed ih => exact lasting_deed lasts _ deed ih
  | register _ port description handler ih =>
    rw [register_link]
    exact ih
  | listen _ listener ih => exact ih
  | reset _ ih => exact lasting_reset lasts _ ih
  | beneath _ upper u act ih => exact (lasts upper).act act (u, _) ih

/-- What lasts under every layer above holds in every state in which a link is met. -/
theorem Meets.lasting {start : Endpoint δ η ω} {t : LinkState δ ω} (meets : Meets start t)
    (holds : P start.link.state) : P t := by
  have upper := lasts (Table.upper (η := Service ω ⊕ η))
  cases meets with
  | between reaches => exact reaches.lasting lasts holds
  | @within e _ ports _ _ call reaches calls among =>
    obtain ⟨due, called⟩ := upper.enduring.calls calls (reaches.lasting lasts holds)
    exact keep_stations (fun emission => upper.emission (u := ports) emission) _
      (upper.told (u := ports) call called) t among
  | @resetting e _ reaches among =>
    have restarted : P e.link.reset.state :=
      upper.act .reset (e.ports, e.link) (reaches.lasting lasts holds)
    exact keep_stations (fun emission => upper.emission (u := e.ports) emission) _ restarted t among

end Lasting

end FramedLink.Endpoint
