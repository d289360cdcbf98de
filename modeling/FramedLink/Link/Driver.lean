import FramedLink.Bytes

/-! # Drivers

A driver is what a link writes to: a serial line, a socket. It takes bytes, says how many it can
take at once, and has a clock. What it receives is passed to the link by whoever owns both.
-/

namespace FramedLink

/-- The state `δ` of a driver, and what a link does with it. -/
class Driver (δ : Type) where
  /-- Hands over bytes, never more than there is space for. -/
  send : δ → Bytes → δ
  /-- The bytes that can be handed over now. -/
  space : δ → Nat
  /-- The time in milliseconds. -/
  clock : δ → Nat

/-- The space of a driver that takes everything. -/
def Driver.unlimited : Nat := 0xFFFFFFFFFFFFFFFF

end FramedLink
