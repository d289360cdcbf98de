import FramedLink.Link.Output

/-! # What a journal tells

A journal is read for the frames that were accepted, delivered and released. Whenever a link
forgets its frames, a new epoch begins; epochs are numbered from zero, and what was accepted in one
epoch has nothing to do with the frames of another.
-/

namespace FramedLink

variable {ω : Type}

/-- What entries of a journal amount to. -/
structure Tally where
  /-- The frames that were accepted for sending, oldest first. -/
  sends : List (Nat × Bytes) := []
  /-- The frames that were delivered to the layer above, oldest first. -/
  deliveries : List (Nat × Bytes) := []
  /-- How many frames were released by answers of the peer. -/
  releases : Nat := 0
  deriving DecidableEq, Repr

namespace Tally

def accept (t : Tally) (metadata : Nat) (payload : Bytes) : Tally :=
  { t with sends := t.sends ++ [(metadata, payload)] }

def deliver (t : Tally) (metadata : Nat) (payload : Bytes) : Tally :=
  { t with deliveries := t.deliveries ++ [(metadata, payload)] }

def release (t : Tally) (count : Nat) : Tally := { t with releases := t.releases + count }

/-- What is told by one more entry. -/
def add (t : Tally) : Entry ω → Tally
  | .accepted metadata payload => t.accept metadata payload
  | .left (.delivered metadata payload) => t.deliver metadata payload
  | .released count => t.release count
  | _ => t

end Tally

/-- An entry of something that left the link, or is going to, and is no delivery. -/
def Entry.Idle : Entry ω → Prop
  | .left (.delivered _ _) => False
  | .left _ => True
  | .going _ => True
  | _ => False

/-- An entry of a frame that is handed over. -/
def Entry.Outward : Entry ω → Prop
  | .left (.handed _) => True
  | .going _ => True
  | _ => False

theorem Entry.Outward.idle {entry : Entry ω} (outward : entry.Outward) : entry.Idle := by
  rcases entry with (_ | _ | _ | _) | _ | _ | _ | _ | _ <;> trivial

namespace Journal

/-- What a whole journal amounts to. -/
def tally : List (Entry ω) → Tally
  | [] => {}
  | entry :: earlier => (tally earlier).add entry

/-- How often the frames were forgotten, which is the number of the present epoch. -/
def clears : List (Entry ω) → Nat
  | [] => 0
  | .cleared :: earlier => clears earlier + 1
  | _ :: earlier => clears earlier

/-- How often the link began anew of its own accord. -/
def restarts : List (Entry ω) → Nat
  | [] => 0
  | .restarted :: earlier => restarts earlier + 1
  | _ :: earlier => restarts earlier

/-- How many frames were released since the counters began anew. -/
def counted : List (Entry ω) → Nat
  | [] => 0
  | .restarted :: _ => 0
  | .released count :: earlier => counted earlier + count
  | _ :: earlier => counted earlier

/-- The entries of one epoch. -/
def part (epoch : Nat) : List (Entry ω) → List (Entry ω)
  | [] => []
  | entry :: earlier =>
    if clears earlier = epoch then entry :: part epoch earlier else part epoch earlier

/-- What one epoch amounts to. -/
def ofEpoch (epoch : Nat) (journal : List (Entry ω)) : Tally := tally (part epoch journal)

def present (journal : List (Entry ω)) : Tally := ofEpoch (clears journal) journal

/-- The number of frames delivered in the present epoch. -/
abbrev delivered (journal : List (Entry ω)) : Nat := (present journal).deliveries.length

/-- The number of frames released in the present epoch. -/
abbrev released (journal : List (Entry ω)) : Nat := (present journal).releases

/-! ## One more entry -/

theorem ofEpoch_cons (epoch : Nat) (entry : Entry ω) (earlier : List (Entry ω)) :
    ofEpoch epoch (entry :: earlier) =
      if clears earlier = epoch then (ofEpoch epoch earlier).add entry
      else ofEpoch epoch earlier := by
  unfold ofEpoch
  rw [part]
  split <;> rfl

@[simp] theorem ofEpoch_cleared (epoch : Nat) (earlier : List (Entry ω)) :
    ofEpoch epoch (.cleared :: earlier) = ofEpoch epoch earlier := by
  rw [ofEpoch_cons]
  split <;> rfl

@[simp] theorem ofEpoch_restarted (epoch : Nat) (earlier : List (Entry ω)) :
    ofEpoch epoch (.restarted :: earlier) = ofEpoch epoch earlier := by
  rw [ofEpoch_cons]
  split <;> rfl

section Idle

variable {entry : Entry ω} (idle : entry.Idle)
include idle

theorem add_idle (t : Tally) : t.add entry = t := by
  rcases entry with (_ | _ | _ | _) | _ | _ | _ | _ | _ <;> first | rfl | cases idle

theorem ofEpoch_idle (epoch : Nat) (earlier : List (Entry ω)) :
    ofEpoch epoch (entry :: earlier) = ofEpoch epoch earlier := by
  rw [ofEpoch_cons, add_idle idle, ite_self]

theorem clears_idle (earlier : List (Entry ω)) : clears (entry :: earlier) = clears earlier := by
  rcases entry with (_ | _ | _ | _) | _ | _ | _ | _ | _ <;> first | rfl | cases idle

theorem restarts_idle (earlier : List (Entry ω)) :
    restarts (entry :: earlier) = restarts earlier := by
  rcases entry with (_ | _ | _ | _) | _ | _ | _ | _ | _ <;> first | rfl | cases idle

theorem counted_idle (earlier : List (Entry ω)) : counted (entry :: earlier) = counted earlier := by
  rcases entry with (_ | _ | _ | _) | _ | _ | _ | _ | _ <;> first | rfl | cases idle

theorem present_idle (earlier : List (Entry ω)) : present (entry :: earlier) = present earlier := by
  rw [present, clears_idle idle, ofEpoch_idle idle, present]

end Idle

private theorem tally_append_idle {newer : List (Entry ω)} (idle : ∀ entry ∈ newer, entry.Idle)
    (older : List (Entry ω)) : tally (newer ++ older) = tally older := by
  induction newer with
  | nil => rfl
  | cons entry rest ih =>
    obtain ⟨first, others⟩ := List.forall_mem_cons.mp idle
    rw [List.cons_append, tally, add_idle first, ih others]

theorem ofEpoch_append_idle {newer : List (Entry ω)} (idle : ∀ entry ∈ newer, entry.Idle)
    (epoch : Nat) (older : List (Entry ω)) :
    ofEpoch epoch (newer ++ older) = ofEpoch epoch older := by
  induction newer with
  | nil => rfl
  | cons entry rest ih =>
    obtain ⟨first, others⟩ := List.forall_mem_cons.mp idle
    rw [List.cons_append, ofEpoch_idle first, ih others]

section Present

variable (journal : List (Entry ω))

@[simp] theorem present_accepted (metadata : Nat) (payload : Bytes) :
    present (.accepted metadata payload :: journal) =
      (present journal).accept metadata payload := by
  simp [present, clears, ofEpoch_cons, Tally.add]

@[simp] theorem present_delivered (metadata : Nat) (payload : Bytes) :
    present (.left (.delivered metadata payload) :: journal) =
      (present journal).deliver metadata payload := by
  simp [present, clears, ofEpoch_cons, Tally.add]

theorem delivered_delivered (metadata : Nat) (payload : Bytes) :
    delivered (.left (.delivered metadata payload) :: journal) = delivered journal + 1 := by
  rw [delivered, present_delivered]
  simp [Tally.deliver]

@[simp] theorem present_released (count : Nat) :
    present (.released count :: journal) = (present journal).release count := by
  simp [present, clears, ofEpoch_cons, Tally.add]

@[simp] theorem present_restarted : present (.restarted :: journal) = present journal := by
  simp [present, clears]

end Present

/-! ## Epochs -/

theorem clears_le (entry : Entry ω) (earlier : List (Entry ω)) :
    clears earlier ≤ clears (entry :: earlier) := by
  rcases entry with (_ | _ | _ | _) | _ | _ | _ | _ | _ <;> simp [clears]

theorem part_of_clears_lt {journal : List (Entry ω)} {epoch : Nat} (h : clears journal < epoch) :
    part epoch journal = [] := by
  induction journal with
  | nil => rfl
  | cons entry earlier ih =>
    have before := clears_le entry earlier
    rw [part, if_neg (by omega), ih (by omega)]

theorem ofEpoch_of_clears_lt {journal : List (Entry ω)} {epoch : Nat}
    (h : clears journal < epoch) : ofEpoch epoch journal = {} := by
  rw [ofEpoch, part_of_clears_lt h]
  rfl

@[simp] theorem present_cleared (earlier : List (Entry ω)) :
    present (.cleared :: earlier) = {} := by
  rw [present, ofEpoch_cleared]
  exact ofEpoch_of_clears_lt (Nat.lt_succ_self _)

theorem part_zero {journal : List (Entry ω)} (h : clears journal = 0) :
    part 0 journal = journal := by
  induction journal with
  | nil => rfl
  | cons entry earlier ih =>
    have before := clears_le entry earlier
    rw [part, if_pos (by omega), ih (by omega)]

/-- As long as nothing was forgotten, the present epoch is the whole journal. -/
theorem present_eq_tally {journal : List (Entry ω)} (h : clears journal = 0) :
    present journal = tally journal := by
  rw [present, ofEpoch, h, part_zero h]

theorem counted_eq_releases {journal : List (Entry ω)} (h : restarts journal = 0) :
    counted journal = (tally journal).releases := by
  induction journal with
  | nil => rfl
  | cons entry earlier ih =>
    rcases entry with (_ | _ | _ | _) | _ | _ | _ | _ | _ <;>
      simp_all [counted, tally, Tally.add, Tally.accept, Tally.deliver, Tally.release, restarts]

/-! ## What was handed over -/

/-- The strings of bytes that were handed to the driver, oldest first. -/
def handed : List (Entry ω) → List Bytes
  | [] => []
  | .left (.handed bytes) :: earlier => handed earlier ++ [bytes]
  | _ :: earlier => handed earlier

theorem handed_append (newer older : List (Entry ω)) :
    handed (newer ++ older) = handed older ++ handed newer := by
  induction newer with
  | nil => exact (List.append_nil _).symm
  | cons entry rest ih =>
    rcases entry with (bytes | _ | _ | _) | _ | _ | _ | _ | _
    · show handed (rest ++ older) ++ [bytes] = _
      rw [ih, List.append_assoc]
      rfl
    all_goals exact ih

end Journal

/-! ## What a link accepts -/

namespace LinkState

variable {δ : Type} [Driver δ]

open Journal

theorem journal_handControls (queue : List ControlFrame) (s : LinkState δ ω) :
    ∃ newer, (∀ entry ∈ newer, entry.Outward) ∧
      (handControls queue s).2.journal = newer ++ s.journal := by
  induction queue generalizing s with
  | nil => exact ⟨[], nofun, rfl⟩
  | cons f rest ih =>
    rw [handControls]
    split
    · exact ⟨[], nofun, rfl⟩
    · obtain ⟨newer, outward, same⟩ := ih { s.hand f.image with
        status.tx.controlFrames := s.status.tx.controlFrames + 1 }
      refine ⟨newer ++ [.left (.handed f.image)], ?_, same.trans ?_⟩
      · exact List.forall_mem_append.mpr ⟨outward, List.forall_mem_singleton.mpr trivial⟩
      · rw [List.append_assoc]
        rfl

theorem journal_handPending (now : Nat) (frames : List Outgoing) (s : LinkState δ ω) :
    ∃ newer, (∀ entry ∈ newer, entry.Outward) ∧
      (handPending now frames s).2.journal = newer ++ s.journal := by
  induction frames generalizing s with
  | nil => exact ⟨[], nofun, rfl⟩
  | cons f rest ih =>
    rw [handPending]
    split
    · exact ih s
    · split
      · exact ⟨[], nofun, rfl⟩
      · obtain ⟨newer, outward, same⟩ := ih (s.handOutgoing f)
        refine ⟨newer ++ [.left (.handed f.image), .going f.place], ?_, same.trans ?_⟩
        · exact List.forall_mem_append.mpr ⟨outward, List.forall_mem_cons.mpr
            ⟨trivial, List.forall_mem_singleton.mpr trivial⟩⟩
        · rw [List.append_assoc]
          rfl

/-- A flush writes down what it hands over, and nothing else. -/
theorem journal_flush (s : LinkState δ ω) :
    ∃ newer, (∀ entry ∈ newer, entry.Outward) ∧ s.flush.journal = newer ++ s.journal := by
  have controls := journal_handControls s.control.waiting s
  unfold flush
  split
  · next left =>
    rw [left] at controls
    exact controls
  · next s' left =>
    rw [left] at controls
    obtain ⟨first, outward, before⟩ := controls
    obtain ⟨second, outward', after⟩ := journal_handPending s'.clock s'.window.frames s'
    refine ⟨second ++ first, List.forall_mem_append.mpr ⟨outward', outward⟩, after.trans ?_⟩
    rw [before, List.append_assoc]

theorem tally_flush (s : LinkState δ ω) : tally s.flush.journal = tally s.journal := by
  obtain ⟨newer, outward, same⟩ := journal_flush s
  rw [same, tally_append_idle fun entry among => (outward entry among).idle]

theorem sends_send (s : LinkState δ ω) (metadata : Nat) (payload : Bytes) :
    (tally (s.send metadata payload).2.journal).sends =
      match (s.send metadata payload).1 with
      | .ok () => (tally s.journal).sends ++ [(metadata, payload)]
      | .error _ => (tally s.journal).sends := by
  unfold send
  split
  · rfl
  · split
    · rfl
    · split
      · rfl
      · split
        · rfl
        · simp only
          split
          · rfl
          · exact congrArg Tally.sends (tally_flush _)

theorem fits_of_send {s : LinkState δ ω} {metadata : Nat} {payload : Bytes}
    (sent : (s.send metadata payload).1 = .ok ()) : metadata ≤ Frame.maxMetadata := by
  unfold send at sent
  split at sent
  · cases sent
  · split at sent
    · cases sent
    · split at sent
      · cases sent
      · next fits => exact Nat.le_of_not_lt fits

end LinkState

end FramedLink
