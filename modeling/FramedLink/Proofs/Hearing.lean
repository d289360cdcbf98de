import FramedLink.Endpoint
import FramedLink.Proofs.Lasting

/-! # What the layer above hears

Every call to the layer above is written into the journal, and nothing but these calls changes that
layer. So what becomes of it in a run of an endpoint is told by the calls alone, whatever else the
link was doing.
-/

namespace FramedLink

variable {δ ω υ : Type}

/-- The calls to the layer above, oldest first. -/
def Journal.calls : List (Entry ω) → List Call
  | [] => []
  | .left (.raised event) :: earlier => calls earlier ++ [.event event]
  | .left (.delivered metadata payload) :: earlier => calls earlier ++ [.data metadata payload]
  | _ :: earlier => calls earlier

open Journal

variable [Driver δ]

/-- What several calls make of the layer above, each of them on some state of the link. -/
inductive Upper.Hears (δ : Type) [Driver δ] (upper : Upper υ ω) : υ → List Call → υ → Prop where
  | nothing (u : υ) : Hears δ upper u [] u
  | call {u u' : υ} {calls : List Call} (earlier : Hears δ upper u calls u') (s : LinkState δ ω)
      (call : Call) : Hears δ upper u (calls ++ [call]) (LinkState.tell upper (u', s) call).1

theorem Upper.Hears.trans {upper : Upper υ ω} {u u' u'' : υ} {first second : List Call}
    (h : upper.Hears δ u first u') (h' : upper.Hears δ u' second u'') :
    upper.Hears δ u (first ++ second) u'' := by
  induction h' with
  | nothing =>
    rw [List.append_nil]
    exact h
  | call _ s call ih =>
    rw [← List.append_assoc]
    exact .call ih s call

namespace LinkState

variable (upper : Upper υ ω)

/-- The layer above heard what was written into the journal meanwhile. -/
def Heard (us us' : υ × LinkState δ ω) : Prop :=
  ∃ calls, upper.Hears δ us.1 calls us'.1 ∧
    Journal.calls us'.2.journal = Journal.calls us.2.journal ++ calls

variable {upper} {u : υ} {s s' : LinkState δ ω} {us us' us'' : υ × LinkState δ ω}

theorem Heard.trans (h : Heard upper us us') (h' : Heard upper us' us'') : Heard upper us us'' := by
  obtain ⟨first, hears, written⟩ := h
  obtain ⟨second, hears', written'⟩ := h'
  refine ⟨first ++ second, hears.trans hears', ?_⟩
  rw [written', written, List.append_assoc]

theorem Heard.of_same (same : calls s'.journal = calls s.journal) : Heard upper (u, s) (u, s') := by
  refine ⟨[], .nothing u, ?_⟩
  rw [List.append_nil]
  exact same

private theorem calls_emission (emission : Emission s s') : calls s'.journal = calls s.journal := by
  cases emission <;> rfl

omit [Driver δ] in
private theorem calls_reaction {happening : Framing.Happening} {called : List Call}
    (reaction : Reaction s happening s' called) : calls s'.journal = calls s.journal := by
  cases reaction <;> rfl

variable (upper) in
theorem lasting_heard (us : υ × LinkState δ ω) :
    Lasting upper fun u s => Heard upper us (u, s) where
  emission := by
    intro u s s' emission heard
    exact heard.trans (.of_same (calls_emission emission))
  reaction := by
    intro u s s' happening called reaction heard
    exact heard.trans (.of_same (calls_reaction reaction))
  told := by
    intro u s call heard
    apply heard.trans
    refine ⟨[call], .call (.nothing u) s call, ?_⟩
    cases call with
    | event => rfl
    | data => rfl
  counted _ heard := heard.trans (.of_same rfl)
  disconnected heard := heard.trans (.of_same rfl)
  rewind heard := heard.trans (.of_same rfl)
  restarted heard := heard.trans (.of_same rfl)
  driver _ heard := heard.trans (.of_same rfl)

end LinkState

/-! ## Endpoints -/

namespace Endpoint

open Port

variable {η : Type} [Handler η ω]

/-- What may be done with an endpoint, apart from beginning anew. -/
inductive Deed (δ : Type) where
  | send (port : Nat) (segment : Segment) (data : Nat) (payload : Bytes)
  | sendMessage (port data : Nat) (message : Bytes)
  | ask (question : Question) (argument : Nat) (body : Bytes)
  | receive (chunk : Bytes)
  | process
  /-- The driver gets another state, with another clock and other space. -/
  | tune (driver : δ)
  deriving DecidableEq, Repr

def deed (e : Endpoint δ η ω) : Deed δ → Endpoint δ η ω
  | .send port segment data payload => (e.send port segment data payload).2
  | .sendMessage port data message => (e.sendMessage port data message).2
  | .ask question argument body => (e.ask question argument body).2
  | .receive chunk => e.receive chunk
  | .process => e.process
  | .tune driver => { e with link.state.driver := driver }

/-- The endpoint after several deeds. -/
def deeds (e : Endpoint δ η ω) (deeds : List (Deed δ)) : Endpoint δ η ω := deeds.foldl deed e

/-- The ports of an endpoint heard what was written into the journal meanwhile. -/
def Heard (e e' : Endpoint δ η ω) : Prop :=
  LinkState.Heard Table.upper (e.ports, e.link.state) (e'.ports, e'.link.state)

private theorem heard_deed (e : Endpoint δ η ω) (deed : Deed δ) : e.Heard (e.deed deed) := by
  have lasting := LinkState.lasting_heard Table.upper (e.ports, e.link.state)
  have same : e.Heard e := .of_same rfl
  have ran {α : Type} (script : Script ω α) : e.Heard (e.run script).2 :=
    lasting.emits (LinkState.emits_run script e.link.state) same
  cases deed with
  | send port segment data payload => exact ran _
  | sendMessage port data message => exact ran _
  | ask question argument body => exact ran _
  | receive chunk => exact lasting.act (.receive chunk) (e.ports, e.link) same
  | process => exact lasting.act .process (e.ports, e.link) same
  | tune driver => exact lasting.act (.tune driver) (e.ports, e.link) same

/-- What becomes of the ports is told by the calls in the journal. -/
theorem heard_deeds (e : Endpoint δ η ω) (deeds : List (Deed δ)) : e.Heard (e.deeds deeds) := by
  induction deeds generalizing e with
  | nil => exact .of_same rfl
  | cons deed rest ih => exact (e.heard_deed deed).trans (ih _)

end Endpoint

end FramedLink
