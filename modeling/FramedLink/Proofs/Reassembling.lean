import FramedLink.Port.Handler
import FramedLink.Simulation.Exchange

/-! # What a message port makes of segments

A message port puts segments together and gives each message that is complete to its consumer.
Whatever it was in the middle of, the segments of one message make it give that message to the
consumer if the message is short enough, and leave nothing behind.
-/

namespace FramedLink.Port

open FramedLink.Simulation.Exchange (Letter)

/-! ## Segments of a message -/

theorem length_segments {message : Bytes} (some : message ≠ []) (first : Bool) :
    (segments first message).length = (message.length + 255) / 256 := by
  have positive := List.length_pos_iff.mpr some
  clear some
  fun_induction segments first message with
  | case1 first message short =>
    simp only [Frame.maxPayload] at short
    simp only [List.length_singleton]
    omega
  | case2 first message long ih =>
    simp only [Frame.maxPayload] at long ih
    simp only [List.length_drop, List.length_cons, Frame.maxPayload] at ih ⊢
    rw [ih (by omega)]
    omega

/-! ## Reassembly -/

namespace Reassembly

variable (r : Reassembly)

/-- The reassembly at the beginning of a message. -/
def begun : Reassembly := ⟨r.limit, [], true⟩

theorem push_first (last : Bool) (payload : Bytes) :
    r.push (.ofEnds true last) payload = r.begun.push (.ofEnds false last) payload := by
  unfold push
  simp only [Segment.isStart_ofEnds, Segment.isStop_ofEnds]
  rfl

theorem push_idle (idle : r.active = false) (last : Bool) (payload : Bytes) :
    r.push (.ofEnds false last) payload =
      (.error (.unexpectedSegment (.ofEnds false last)), r) := by
  unfold push
  rw [Segment.isStart_ofEnds, if_pos ⟨rfl, idle⟩]

theorem push_active (active : r.active = true) (last : Bool) (payload : Bytes) :
    r.push (.ofEnds false last) payload =
      if r.limit < r.partly.length + payload.length then
        (.error (.tooBig (r.partly.length + payload.length) r.limit), r.clear)
      else if last then (.ok (some (r.partly ++ payload)), r.clear)
      else (.ok none, { r with partly := r.partly ++ payload }) := by
  obtain ⟨limit, partly, activity⟩ := r
  obtain rfl : activity = true := active
  unfold push
  simp only [Segment.isStart_ofEnds, Segment.isStop_ofEnds, Bool.true_eq_false, and_false,
    Bool.false_eq_true, if_false]

end Reassembly

/-! ## Inboxes -/

/-- What a message port knows of the segments it was given, with the messages its consumer got. -/
structure Inbox where
  reassembly : Reassembly
  data : Nat
  letters : List Letter
  deriving DecidableEq, Repr

namespace Inbox

/-- The inbox with another segment. -/
def take (inbox : Inbox) (address : Address) (payload : Bytes) : Inbox :=
  let data := if address.segment.isStart then address.data else inbox.data
  match inbox.reassembly.push address.segment payload with
  | (.ok (some message), reassembly) =>
    ⟨reassembly, data, inbox.letters ++ [⟨address.port, data, message⟩]⟩
  | (_, reassembly) => { inbox with reassembly, data }

/-- The inbox with several segments that carry the same port data. -/
def takeAll (inbox : Inbox) (port data : Nat) (parts : List (Segment × Bytes)) : Inbox :=
  parts.foldl (fun inbox part => inbox.take ⟨port, part.1, data⟩ part.2) inbox

variable {inbox : Inbox} (port data : Nat) (message : Bytes)

private theorem takeAll_idle (idle : inbox.reassembly.active = false) :
    inbox.takeAll port data (segments false message) = inbox := by
  have passed (last : Bool) (payload : Bytes) :
      inbox.take ⟨port, .ofEnds false last, data⟩ payload = inbox := by
    unfold take
    simp only [inbox.reassembly.push_idle idle last payload, Segment.isStart_ofEnds]
    rfl
  generalize goesOn : false = first
  fun_induction segments first message with
  | case1 first message =>
    subst goesOn
    exact passed true message
  | case2 first message _ ih =>
    subst goesOn
    rw [takeAll, List.foldl_cons, passed]
    exact ih rfl

private theorem take_active (active : inbox.reassembly.active = true) (last : Bool)
    (payload : Bytes) :
    inbox.take ⟨port, .ofEnds false last, data⟩ payload =
      let whole := inbox.reassembly.partly ++ payload
      if inbox.reassembly.limit < whole.length then
        { inbox with reassembly := inbox.reassembly.clear }
      else if last then
        { inbox with
          reassembly := inbox.reassembly.clear
          letters := inbox.letters ++ [⟨port, inbox.data, whole⟩] }
      else { inbox with reassembly.partly := whole } := by
  unfold take
  simp only [inbox.reassembly.push_active active, Segment.isStart_ofEnds, List.length_append]
  by_cases big : inbox.reassembly.limit < inbox.reassembly.partly.length + payload.length
  · simp only [big, if_true]
    rfl
  · cases last with
    | false => simp [big]
    | true => simp [big]

private theorem takeAll_active (active : inbox.reassembly.active = true) :
    inbox.takeAll port data (segments false message) =
      let whole := inbox.reassembly.partly ++ message
      { inbox with
        reassembly := inbox.reassembly.clear
        letters := inbox.letters ++
          if whole.length ≤ inbox.reassembly.limit then [⟨port, inbox.data, whole⟩] else [] } := by
  generalize goesOn : false = first
  fun_induction segments first message generalizing inbox with
  | case1 first message =>
    subst goesOn
    rw [takeAll, List.foldl_cons, List.foldl_nil, take_active port data active]
    simp only
    by_cases big : inbox.reassembly.limit < (inbox.reassembly.partly ++ message).length
    · rw [if_pos big, if_neg (Nat.not_le_of_lt big), List.append_nil]
    · rw [if_neg big, if_pos (Nat.le_of_not_lt big)]
      rfl
  | case2 first message _ ih =>
    subst goesOn
    rw [takeAll, List.foldl_cons, take_active port data active]
    simp only
    by_cases big : inbox.reassembly.limit <
        (inbox.reassembly.partly ++ message.take Frame.maxPayload).length
    · -- The message is given up, and what is left of it is out of place.
      have tooBig : ¬ (inbox.reassembly.partly ++ message).length ≤ inbox.reassembly.limit := by
        simp only [List.length_append, List.length_take] at big ⊢
        omega
      rw [if_pos big, if_neg tooBig, List.append_nil]
      apply takeAll_idle
      rfl
    · have same : (inbox.reassembly.partly ++ message.take Frame.maxPayload) ++
          message.drop Frame.maxPayload = inbox.reassembly.partly ++ message := by
        rw [List.append_assoc, List.take_append_drop]
      rw [if_neg big]
      have rest : takeAll { inbox with
          reassembly.partly := inbox.reassembly.partly ++ message.take Frame.maxPayload } port data
            (segments false (message.drop Frame.maxPayload)) = _ := ih active rfl
      simp only [same] at rest
      exact rest

theorem take_first (last : Bool) (payload : Bytes) :
    inbox.take ⟨port, .ofEnds true last, data⟩ payload =
      { inbox with reassembly := inbox.reassembly.begun, data }.take
        ⟨port, .ofEnds false last, data⟩ payload := by
  unfold take
  simp only [Reassembly.push_first, Segment.isStart_ofEnds]
  rfl

/-- Whatever an inbox was in the middle of, it gets the whole message if that is not too long, and
is then in the middle of nothing. -/
theorem takeAll_segments :
    inbox.takeAll port data (segments true message) =
      { reassembly := inbox.reassembly.clear
        data
        letters := inbox.letters ++
          if message.length ≤ inbox.reassembly.limit then [⟨port, data, message⟩] else [] } := by
  have begun : inbox.takeAll port data (segments true message) =
      { inbox with reassembly := inbox.reassembly.begun, data }.takeAll port data
        (segments false message) := by
    unfold segments
    split
    · exact take_first port data true message
    · simp only [takeAll, List.foldl_cons, take_first]
  rw [begun, takeAll_active]
  · rfl
  · rfl

end Inbox

/-! ## Message ports -/

/-- A consumer of messages that keeps a list of those it is given. -/
structure Recorded (κ : Type) where
  consumer : κ
  letters : List Letter := []
  deriving DecidableEq, Repr

instance {κ ω : Type} [Consumer κ ω] : Consumer (Recorded κ) ω where
  onMessage directory r port data message :=
    (Consumer.onMessage directory r.consumer port data message).bind fun consumer =>
      .done ⟨consumer, r.letters ++ [⟨port, data, message⟩]⟩

namespace MessagePort

variable {κ ω δ : Type} [Consumer κ ω] [Driver δ]

def inbox (m : MessagePort (Recorded κ)) : Inbox := ⟨m.reassembly, m.data, m.consumer.letters⟩

/-- Whatever the consumer does with a message, and whatever becomes of the link meanwhile, the
segment is taken into the inbox. -/
theorem inbox_take (directory : Directory) (m : MessagePort (Recorded κ)) (address : Address)
    (payload : Bytes) (s : LinkState δ ω) :
    (s.run (m.take directory address payload)).1.inbox = m.inbox.take address payload := by
  unfold take Inbox.take inbox
  rcases pushed : m.reassembly.push address.segment payload with ⟨fault | _ | message, reassembly⟩
  · rfl
  · rfl
  · simp only [Consumer.onMessage, LinkState.run_bind]
    rfl

end MessagePort

end FramedLink.Port
