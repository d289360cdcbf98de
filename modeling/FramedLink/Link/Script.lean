import FramedLink.Link.Status

/-! # Scripts

What a layer above does when it is told something is a script: it may send data frames, ask the
link for its status, its clock and its capacity, and make remarks to the outside; each answer may
decide how it goes on. A script says what is done and leaves it to the link to do it.
-/

namespace FramedLink

/-- A script with remarks `ω` that ends with a value. -/
inductive Script (ω α : Type) : Type where
  | done (value : α)
  | send (metadata : Nat) (payload : Bytes) (next : Except Fault Unit → Script ω α)
  | status (next : LinkStatus → Script ω α)
  | clock (next : Nat → Script ω α)
  /-- Asks how many data frames would be accepted now. -/
  | capacity (next : Nat → Script ω α)
  | remark (remark : ω) (next : Script ω α)

namespace Script

variable {ω α β γ : Type}

/-- One script, then another that depends on its value. -/
def bind : Script ω α → (α → Script ω β) → Script ω β
  | done value, f => f value
  | send metadata payload next, f => send metadata payload fun result => (next result).bind f
  | status next, f => status fun answer => (next answer).bind f
  | clock next, f => clock fun answer => (next answer).bind f
  | capacity next, f => capacity fun answer => (next answer).bind f
  | remark r next, f => remark r (next.bind f)

instance : Monad (Script ω) where
  pure := done
  bind := bind

theorem bind_done (script : Script ω α) : script.bind done = script := by
  induction script <;> simp_all [bind]

theorem bind_assoc (script : Script ω α) (f : α → Script ω β) (g : β → Script ω γ) :
    (script.bind f).bind g = script.bind fun value => (f value).bind g := by
  induction script <;> simp_all [bind]

/-- Sends a data frame; the value is whether it was accepted. -/
def sendFrame (metadata : Nat) (payload : Bytes) : Script ω (Except Fault Unit) :=
  send metadata payload done

def readStatus : Script ω LinkStatus := status done

def readClock : Script ω Nat := clock done

def readCapacity : Script ω Nat := capacity done

def say (r : ω) : Script ω Unit := remark r (done ())

end Script

end FramedLink
