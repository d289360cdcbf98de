import FramedLink.Endpoint

/-! # Small applications

Layers above a link and handlers behind ports that make a link show what it does: they report what
they are told, look at the link from inside, answer, or greet.
-/

namespace FramedLink.Simulation

open Port

inductive Remark where
  /-- A frame or message was sent from inside, with this outcome. -/
  | sent (outcome : Except Fault Unit)
  /-- What the link looks like from inside. -/
  | seen (status : LinkStatus) (time capacity : Nat)
  /-- What the link and the description of a port look like from behind a port. -/
  | seenAtPort (status : LinkStatus) (time capacity : Nat) (description : Option String)
  | event (port : Nat) (event : Event)
  | segment (port : Nat) (address : Address) (payload : Bytes)
  | message (port data : Nat) (message : Bytes)
  | reply (reply : Reply)

def eventNumber : Event → Nat
  | .reset => 0
  | .connected => 1
  | .disconnected => 2

def greeting : Bytes := Text.write "greet"

def report (sending : Script Remark (Except Fault Unit)) : Script Remark Unit := do
  let outcome ← sending
  .say (.sent outcome)

/-! ## Layers above a link -/

def look : Script Remark Unit := do
  let status ← .readStatus
  let time ← .readClock
  let capacity ← .readCapacity
  .say (.seen status time capacity)

def silent : Upper Unit Remark := ⟨fun _ _ => .done (), fun _ _ _ => .done ()⟩

/-- A layer that looks at the link whenever it is told something. -/
def prober : Upper Unit Remark := ⟨fun _ _ => look, fun _ _ _ => look⟩

/-- A layer that sends every payload back, with metadata one higher. -/
def echoer : Upper Unit Remark :=
  ⟨fun _ _ => .done (), fun _ metadata payload => report (.sendFrame (metadata + 1) payload)⟩

def greeter : Upper Unit Remark :=
  ⟨fun _ event => report (.sendFrame (eventNumber event) greeting), fun _ _ _ => .done ()⟩

/-! ## Handlers -/

/-- A consumer of messages, which may send them back reversed. -/
structure Reader where
  answers : Bool
  deriving DecidableEq, Repr

instance : Consumer Reader Remark where
  onMessage _ reader port data message := do
    .say (.message port data message)
    if reader.answers then report (sendMessage port data message.reverse)
    return reader

inductive Application where
  | recorder (port : Nat)
  /-- Reports what it is told, and what the link looks like then. -/
  | prober (port : Nat)
  /-- Reports what it is told, and greets at every event. -/
  | greeter (port : Nat)
  /-- Reports segments and sends them back reversed, with port data one higher. -/
  | reverser (port : Nat)
  | reader (port : MessagePort Reader)

namespace Application

/-- Reports what the link looks like, and the description of a port. -/
def lookAtPort (directory : Directory) (port : Nat) : Script Remark Unit := do
  let status ← .readStatus
  let time ← .readClock
  let capacity ← .readCapacity
  .say (.seenAtPort status time capacity (directory port))

def tell (directory : Directory) (app : Application) (event : Event) :
    Script Remark Application := do
  match app with
  | recorder port => .say (.event port event)
  | prober port =>
    .say (.event port event)
    lookAtPort directory port
  | greeter port =>
    .say (.event port event)
    report (sendMessage port (eventNumber event) greeting)
  | reverser _ => return app
  | reader port => return reader (← Handler.onEvent directory port event)
  return app

def give (directory : Directory) (app : Application) (address : Address) (payload : Bytes) :
    Script Remark Application := do
  match app with
  | recorder port | greeter port => .say (.segment port address payload)
  | prober port =>
    .say (.segment port address payload)
    lookAtPort directory ((payload.head?.map UInt8.toNat).getD 0)
  | reverser port =>
    .say (.segment port address payload)
    report (sendSegment port .single ((address.data + 1) % 0x10000) payload.reverse)
  | reader port => return reader (← Handler.onSegment directory port address payload)
  return app

instance : Handler Application Remark where
  onEvent := tell
  onSegment := give

end Application

end FramedLink.Simulation
