import FramedLink.Link.Output
import FramedLink.Link.Script

/-! # The layer above

A link tells the layer above of events and delivers data frames to it. The layer answers with a
script, which is run on the link there and then, so that a frame sent from it takes its place among
the others.
-/

namespace FramedLink

structure Upper (υ ω : Type) where
  onEvent : υ → Event → Script ω υ
  onData : υ → Nat → Bytes → Script ω υ

namespace LinkState

variable {δ ω υ α : Type} [Driver δ]

def run : Script ω α → LinkState δ ω → α × LinkState δ ω
  | .done value, s => (value, s)
  | .send metadata payload next, s =>
    let (result, s) := s.send metadata payload
    run (next result) s
  | .status next, s => run (next s.status) s
  | .clock next, s => run (next s.clock) s
  | .capacity next, s => run (next s.sendCapacity) s
  | .remark r next, s => run next (s.log (.remarked r))

theorem run_bind {β : Type} (script : Script ω α) (f : α → Script ω β) (s : LinkState δ ω) :
    s.run (script.bind f) =
      let (value, s) := s.run script
      s.run (f value) := by
  induction script generalizing s <;> simp_all [Script.bind, run]

def raise (upper : Upper υ ω) (u : υ) (s : LinkState δ ω) (event : Event) : υ × LinkState δ ω :=
  (s.log (.raised event)).run (upper.onEvent u event)

def deliver (upper : Upper υ ω) (u : υ) (s : LinkState δ ω) (metadata : Nat) (payload : Bytes) :
    υ × LinkState δ ω :=
  (s.log (.delivered metadata payload)).run (upper.onData u metadata payload)

end LinkState

end FramedLink
