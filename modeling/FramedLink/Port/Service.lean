import FramedLink.Port.Handler
import FramedLink.Text.Utf8

/-! # The service port

Port 0 answers four questions about its side of the link: the counters, an echo, the time, and the
description of a port. The question stands in the port data: its code in bits 0 to 6, whether this
is the response in bit 7, and an argument in bits 8 to 15. The body is the payload. Questions and
responses are single segments; all else is passed over.
-/

namespace FramedLink.Port

def servicePort : Nat := 0

def serviceDescription : String := "\x7b\"type\":\"oam\",\"name\":\"port0\"\x7d"

/-- The description that is given for a port without one. -/
def noDescription : String := "\x7b\x7d"

inductive Question where
  | status
  /-- The body again. -/
  | echo
  /-- The body again, then the times at which the question came and the response left. -/
  | timeSync
  /-- The description of the port in the argument. -/
  | description
  deriving DecidableEq, Repr

namespace Question

def code : Question → Nat
  | status => 1
  | echo => 2
  | timeSync => 3
  | description => 4

def ofCode? : Nat → Option Question
  | 1 => some status
  | 2 => some echo
  | 3 => some timeSync
  | 4 => some description
  | _ => none

def name : Question → String
  | status => "Status"
  | echo => "Echo"
  | timeSync => "TimeSync"
  | description => "Meta"

/-- The port data of a question or of the response to it. -/
def portData (q : Question) (response : Bool) (argument : Nat) : Nat :=
  q.code + response.toNat * 128 + argument * 256

@[simp] theorem ofCode?_code (q : Question) : ofCode? q.code = some q := by
  cases q <;> rfl

end Question

/-- What port data says to the service. -/
structure Inquiry where
  question : Question
  response : Bool
  argument : Nat
  deriving DecidableEq, Repr

def Inquiry.ofPortData? (data : Nat) : Option Inquiry :=
  (Question.ofCode? (data % 128)).map fun question =>
    ⟨question, data / 128 % 2 = 1, data / 256⟩

theorem Inquiry.ofPortData?_portData (q : Question) (response : Bool) (argument : Nat) :
    ofPortData? (q.portData response argument) = some ⟨q, response, argument⟩ := by
  have small : q.code < 128 := by cases q <;> decide
  have bit : response.toNat < 2 := response.toNat_lt
  have code : q.portData response argument % 128 = q.code := by
    simp only [Question.portData]
    omega
  have flag : q.portData response argument / 128 % 2 = response.toNat := by
    simp only [Question.portData]
    omega
  have rest : q.portData response argument / 256 = argument := by
    simp only [Question.portData]
    omega
  simp [ofPortData?, code, flag, rest]

/-- A response that has arrived. -/
inductive Reply where
  | status (status : LinkStatus)
  | echo (body : Bytes)
  /-- The times at which the peer received the question and sent the response, and at which the
  response was received here. -/
  | timeSync (body : Bytes) (peerReceived peerSent received : Nat)
  | description (port : Nat) (text : String)
  deriving DecidableEq, Repr

def timeSize : Nat := 8

namespace Reply

/-- The response to a question, received at `now`; one that is too short is none. -/
def ofPayload? (question : Question) (argument : Nat) (payload : Bytes) (now : Nat) :
    Option Reply :=
  match question with
  | .status =>
    match LinkStatus.ofBytes payload with
    | .ok counters => some (.status counters)
    | .error _ => none
  | .echo => some (.echo payload)
  | .timeSync =>
    if payload.length < 2 * timeSize then none
    else
      let body := payload.length - 2 * timeSize
      let times := payload.drop body
      some (.timeSync (payload.take body) (Bytes.toNatLE (times.take timeSize))
        (Bytes.toNatLE (times.drop timeSize)) now)
  | .description => some (.description argument (Text.readLossy payload))

end Reply

/-- The handler of the service port. Responses become remarks if there is a listener. -/
structure Service (ω : Type) where
  listener : Option (Reply → ω) := none

namespace Service

variable {ω : Type}

def respond (question : Question) (argument : Nat) (body : Bytes) :
    Script ω (Except Fault Unit) :=
  sendSegment servicePort .single (question.portData true argument) body

def answer (directory : Directory) (question : Question) (argument : Nat) (body : Bytes) :
    Script ω (Except Fault Unit) :=
  match question with
  | .status => .status fun status => respond question argument status.toBytes
  | .echo => respond question argument body
  | .timeSync =>
    .clock fun received =>
      .clock fun sent =>
        respond question argument
          (body ++ Bytes.ofNatLE timeSize received ++ Bytes.ofNatLE timeSize sent)
  | .description =>
    respond question argument (Text.write ((directory argument).getD noDescription))

def hear (s : Service ω) (question : Question) (argument : Nat) (payload : Bytes) :
    Script ω Unit :=
  match s.listener with
  | none => .done ()
  | some listener =>
    .clock fun now =>
      match Reply.ofPayload? question argument payload now with
      | none => .done ()
      | some reply => .say (listener reply)

/-- Takes a segment. An answer that cannot be sent is dropped. -/
def take (directory : Directory) (s : Service ω) (address : Address) (payload : Bytes) :
    Script ω (Service ω) :=
  if address.segment = .single then
    match Inquiry.ofPortData? address.data with
    | none => .done s
    | some ⟨question, true, argument⟩ =>
      (s.hear question argument payload).bind fun _ => .done s
    | some ⟨question, false, argument⟩ =>
      (answer directory question argument payload).bind fun _ => .done s
  else .done s

instance : Handler (Service ω) ω where
  onSegment := take

def summary (s : Service ω) : String :=
  "Port0 \x7b listener: " ++ toString s.listener.isSome ++ " \x7d"

end Service

end FramedLink.Port
