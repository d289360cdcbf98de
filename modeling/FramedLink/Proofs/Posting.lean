import FramedLink.Proofs.Hearing
import FramedLink.Proofs.Journal
import FramedLink.Simulation.Exchange

/-! # The frames of a message

When an endpoint sends a message with success, the link has accepted the segments of the message as
data frames, in their order and with nothing between them.
-/

namespace FramedLink

open Journal

variable {δ ω : Type} [Driver δ]

/-! ## What is sent of a message -/

namespace Port

open FramedLink.Simulation.Exchange (Letter)

/-- The data frames of a message, each with its address as metadata. -/
def frames (letter : Letter) : List (Nat × Bytes) :=
  (segments true letter.message).map fun part =>
    (Address.pack ⟨letter.port, part.1, letter.data⟩, part.2)

/-- The fields of a letter fit into addresses, and there is something in it. -/
structure Mailable (letter : Letter) : Prop where
  some : letter.message ≠ []
  fits : (⟨letter.port, .single, letter.data⟩ : Address).Valid

theorem sends_sendSegment {port data : Nat} {segment : Segment} {payload : Bytes}
    {s : LinkState δ ω} (sent : (s.run (sendSegment port segment data payload)).1 = .ok ()) :
    (⟨port, segment, data⟩ : Address).Valid ∧
      (tally (s.run (sendSegment port segment data payload)).2.journal).sends =
        (tally s.journal).sends ++ [(Address.pack ⟨port, segment, data⟩, payload)] := by
  unfold sendSegment Address.make at sent ⊢
  by_cases beyond : maxPort < port
  · rw [if_pos beyond] at sent
    cases sent
  · rw [if_neg beyond] at sent ⊢
    have fits := LinkState.fits_of_send sent
    have accepted := LinkState.sends_send s (Address.pack ⟨port, segment, data⟩) payload
    rw [show (s.send _ payload).1 = .ok () from sent] at accepted
    have small : data < 0x10000 := by
      simp only [Address.pack, Frame.maxMetadata] at fits
      omega
    exact ⟨⟨Nat.le_of_not_lt beyond, small⟩, accepted⟩

private theorem sends_sendSegments {port data : Nat} {parts : List (Segment × Bytes)}
    {s : LinkState δ ω} (sent : (s.run (sendSegments port data parts)).1 = .ok ()) :
    (∀ part ∈ parts, (⟨port, part.1, data⟩ : Address).Valid) ∧
      (tally (s.run (sendSegments port data parts)).2.journal).sends =
        (tally s.journal).sends ++
          parts.map fun part => (Address.pack ⟨port, part.1, data⟩, part.2) := by
  induction parts generalizing s with
  | nil => exact ⟨nofun, (List.append_nil _).symm⟩
  | cons part rest ih =>
    rw [sendSegments, LinkState.run_bind] at sent ⊢
    rcases first : s.run (sendSegment port part.1 data part.2) with ⟨outcome, s'⟩
    rw [first] at sent
    cases outcome with
    | error fault => cases sent
    | ok done =>
      have here := sends_sendSegment (congrArg Prod.fst first)
      rw [first] at here
      obtain ⟨valid, accepted⟩ := here
      obtain ⟨others, more⟩ := ih sent
      refine ⟨List.forall_mem_cons.mpr ⟨valid, others⟩, more.trans ?_⟩
      rw [accepted, List.append_assoc]
      rfl

theorem sends_sendMessage (letter : Letter) {s : LinkState δ ω}
    (sent : (s.run (sendMessage letter.port letter.data letter.message)).1 = .ok ()) :
    Mailable letter ∧
      (tally (s.run (sendMessage letter.port letter.data letter.message)).2.journal).sends =
        (tally s.journal).sends ++ frames letter := by
  unfold sendMessage at sent ⊢
  by_cases empty : letter.message = []
  · rw [if_pos empty] at sent
    cases sent
  rw [if_neg empty] at sent ⊢
  unfold Address.make at sent ⊢
  by_cases beyond : maxPort < letter.port
  · rw [if_pos beyond] at sent
    cases sent
  rw [if_neg beyond] at sent ⊢
  simp only [LinkState.run] at sent ⊢
  by_cases full : s.sendCapacity < (segments true letter.message).length
  · rw [if_pos full] at sent
    cases sent
  rw [if_neg full] at sent ⊢
  obtain ⟨valid, accepted⟩ := sends_sendSegments sent
  obtain ⟨part, among⟩ : ∃ part, part ∈ segments true letter.message := by
    unfold segments
    split
    · exact ⟨_, List.mem_cons_self⟩
    · exact ⟨_, List.mem_cons_self⟩
  exact ⟨⟨empty, valid part among⟩, accepted⟩

end Port

/-! ## What an endpoint posts -/

namespace Endpoint

open Port
open FramedLink.Simulation.Exchange (Letter)

variable {η : Type} [Handler η ω]

/-- The frames that the link of an endpoint has accepted since. -/
def acceptedSince (before after : Endpoint δ η ω) : List (Nat × Bytes) :=
  (tally after.link.state.journal).sends.drop (tally before.link.state.journal).sends.length

/-- The messages that an endpoint sends with success, each with the frames that its link accepts
for it. -/
def posted (e : Endpoint δ η ω) : List (Deed δ) → List (Letter × List (Nat × Bytes))
  | [] => []
  | .sendMessage port data message :: rest =>
    match e.sendMessage port data message with
    | (.ok (), after) => (⟨port, data, message⟩, acceptedSince e after) :: after.posted rest
    | (.error _, after) => after.posted rest
  | deed :: rest => (e.deed deed).posted rest

/-- Every message that was posted can be addressed, and its frames are those of the message. -/
theorem frames_of_posted (e : Endpoint δ η ω) (deeds : List (Deed δ)) :
    ∀ post ∈ e.posted deeds, Mailable post.1 ∧ post.2 = frames post.1 := by
  fun_induction posted e deeds with
  | case1 => nofun
  | case2 e port data message rest after sent ih =>
    have ok : (e.link.state.run (Port.sendMessage port data message)).1 = .ok () :=
      congrArg Prod.fst sent
    obtain ⟨mailable, accepted⟩ := sends_sendMessage ⟨port, data, message⟩ ok
    refine List.forall_mem_cons.mpr ⟨⟨mailable, ?_⟩, ih⟩
    have same : after.link.state = (e.link.state.run (Port.sendMessage port data message)).2 :=
      congrArg (·.2.link.state) sent.symm
    rw [acceptedSince, same, accepted, List.drop_left]
  | case3 e port data message rest fault after failed ih => exact ih
  | case4 e deed rest other ih => exact ih

end Endpoint

end FramedLink
