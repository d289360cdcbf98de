import FramedLink.Link
import FramedLink.Port.Service
import FramedLink.Port.Table

/-! # Endpoints

An endpoint is a link with a table of ports above it. The service stands at port 0 from the start.
-/

namespace FramedLink

open Port

/-- An endpoint over a driver with state `δ` and with handlers of type `η`. -/
structure Endpoint (δ η ω : Type) where
  link : Link δ ω
  ports : Table (Service ω ⊕ η)

namespace Endpoint

variable {δ η ω α : Type} [Driver δ]

/-- An endpoint with only the service. -/
def ofConfig (config : Config) (driver : δ) : Except Fault (Endpoint δ η ω) := do
  let link ← Link.ofConfig config driver
  return ⟨link, { entries := [⟨servicePort, some serviceDescription, .inl {}⟩] }⟩

/-- Puts a handler at a port. The description has to fit into one frame. -/
def register (e : Endpoint δ η ω) (port : Nat) (description : Option String)
    (handler : Service ω ⊕ η) : Except Fault Unit × Endpoint δ η ω :=
  let size := (description.map String.utf8ByteSize).getD 0
  if maxPort < port then (.error (.invalidPort port), e)
  else if Frame.maxPayload < size then (.error (.tooBig size Frame.maxPayload), e)
  else (.ok (), { e with ports := e.ports.insert ⟨port, description, handler⟩ })

/-- Lets the service report responses. -/
def listen (e : Endpoint δ η ω) (listener : Reply → ω) : Endpoint δ η ω :=
  let service : Service ω := { listener := some listener }
  let entry := ⟨servicePort, e.ports.directory servicePort, .inl service⟩
  { e with ports := e.ports.insert entry }

def run (e : Endpoint δ η ω) (script : Script ω α) : α × Endpoint δ η ω :=
  let (value, link) := e.link.run script
  (value, { e with link })

def send (e : Endpoint δ η ω) (port : Nat) (segment : Segment) (data : Nat) (payload : Bytes) :
    Except Fault Unit × Endpoint δ η ω :=
  e.run (sendSegment port segment data payload)

def sendMessage (e : Endpoint δ η ω) (port data : Nat) (message : Bytes) :
    Except Fault Unit × Endpoint δ η ω :=
  e.run (Port.sendMessage port data message)

/-- Puts a question to the service of the peer. A body without bytes is sent as a zero. -/
def ask (e : Endpoint δ η ω) (question : Question) (argument : Nat) (body : Bytes) :
    Except Fault Unit × Endpoint δ η ω :=
  e.send servicePort .single (question.portData false argument) (if body = [] then [0] else body)

variable [Handler η ω]

def receive (e : Endpoint δ η ω) (chunk : Bytes) : Endpoint δ η ω :=
  let (ports, link) := e.link.receive Table.upper e.ports chunk
  ⟨link, ports⟩

def process (e : Endpoint δ η ω) : Endpoint δ η ω :=
  let (ports, link) := e.link.process Table.upper e.ports
  ⟨link, ports⟩

/-- Begins the link anew and tells every handler. -/
def reset (e : Endpoint δ η ω) : Endpoint δ η ω :=
  let (ports, link) := e.link.reset.run (e.ports.tell .reset)
  ⟨link, ports⟩

end Endpoint

end FramedLink
