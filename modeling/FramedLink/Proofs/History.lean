import Mathlib.Data.List.Infix
import Mathlib.Logic.Function.Basic
import FramedLink.Proofs.GreedyDecoding
import FramedLink.Proofs.Lasting

/-! # What is accepted of a stream

From the frames in the bytes that a link is given it can be told which data frames it accepts: those
that have the id that is next. The ids count from zero again whenever the link begins anew, by its
own decision or at the request of the peer; so what was accepted is told epoch by epoch.
-/

namespace FramedLink

open FramedLink.Frame FramedLink.Framing

/-! ## An epoch -/

/-- What comes of the data frames of an epoch. -/
structure Epoch where
  /-- The frames that had the id that was next. -/
  accepted : List DataFrame := []
  /-- When there were none yet, a frame came that lies behind the first one on the shorter way. -/
  misread : Bool := false
  deriving DecidableEq, Repr

namespace Epoch

/-- The id that the next frame has. -/
def next (e : Epoch) : Nat := e.accepted.length % FrameId.space

def take (e : Epoch) (f : DataFrame) : Epoch :=
  if f.id = e.next then { e with accepted := e.accepted ++ [f] }
  else if e.accepted = [] ∧ FrameId.reach < f.id then { e with misread := true }
  else e

def contents (e : Epoch) : List (Nat × Bytes) := e.accepted.map fun f => (f.metadata, f.payload)

/-- The id is that of one of the first so many frames, or the last of all ids after a frame was
misread. -/
def Names (e : Epoch) (count id : Nat) : Prop :=
  id ∈ (e.accepted.take count).map (·.id) ∨ e.misread = true ∧ id = maxId

/-- Each frame has the id of its place. -/
def Numbered (e : Epoch) : Prop :=
  ∀ place f, e.accepted[place]? = some f → f.id = place % FrameId.space

/-- The epoch goes on. -/
structure Within (e e' : Epoch) : Prop where
  accepted : e.accepted <+: e'.accepted
  misread : e.misread = true → e'.misread = true

variable {e e' : Epoch} {f : DataFrame} {count count' id : Nat}

theorem Within.refl (e : Epoch) : e.Within e := ⟨List.prefix_rfl, fun h => h⟩

theorem Names.mono (h : e.Names count id) (within : e.Within e') (more : count ≤ count') :
    e'.Names count' id := by
  refine h.imp (fun among => ?_) fun ⟨was, last⟩ => ⟨within.misread was, last⟩
  have front : e.accepted.take count <+: e'.accepted.take count' :=
    (List.IsPrefix.take within.accepted count).trans (List.take_prefix_take_left more)
  exact (front.map _).subset among

theorem within_take (e : Epoch) (f : DataFrame) : e.Within (e.take f) := by
  unfold take
  split
  · exact ⟨List.prefix_append _ _, fun h => h⟩
  · split
    · exact ⟨List.prefix_rfl, fun _ => rfl⟩
    · exact .refl e

theorem accepted_take_of_ne (other : f.id ≠ e.next) : (e.take f).accepted = e.accepted := by
  unfold take
  rw [if_neg other]
  split <;> rfl

theorem take_of_eq (same : f.id = e.next) :
    e.take f = { e with accepted := e.accepted ++ [f] } := by
  rw [take, if_pos same]

theorem Numbered.take (h : e.Numbered) (f : DataFrame) : (e.take f).Numbered := by
  intro place g here
  by_cases same : f.id = e.next
  · rw [take_of_eq same] at here
    by_cases inside : place < e.accepted.length
    · rw [List.getElem?_append_left inside] at here
      exact h place g here
    · have last := (List.getElem?_eq_some_iff.mp here).1
      simp only [List.length_append, List.length_singleton] at last
      obtain rfl : place = e.accepted.length := by omega
      rw [List.getElem?_concat_length] at here
      cases here
      exact same
  · rw [accepted_take_of_ne same] at here
    exact h place g here

private theorem Numbered.names_prev (h : e.Numbered) (some : e.accepted ≠ []) :
    e.Names e.accepted.length (FrameId.prev e.next) := by
  obtain ⟨front, f, same⟩ := (List.eq_nil_or_concat' e.accepted).resolve_left some
  have length : e.accepted.length = front.length + 1 := by
    rw [same, List.length_append, List.length_singleton]
  have id : f.id = FrameId.prev e.next := by
    rw [h front.length f (by rw [same, List.getElem?_concat_length])]
    simp only [FrameId.prev, FrameId.advance, next, FrameId.space, length]
    omega
  left
  rw [List.take_length, ← id]
  exact List.mem_map_of_mem (same ▸ List.mem_append_right _ List.mem_cons_self)

theorem ne_next_of_distance (apart : FrameId.distance f.id e.next ≠ 0) : f.id ≠ e.next := by
  intro same
  rw [same, FrameId.distance_self] at apart
  exact apart rfl

/-- When a frame comes that lies behind the next one, the id before that is one that is named. -/
theorem Numbered.names_behind (h : e.Numbered) (valid : f.id ≤ maxId)
    (behind : FrameId.distance f.id e.next < 0) :
    (e.take f).Names (e.take f).accepted.length (FrameId.prev (e.take f).next) := by
  have other : f.id ≠ e.next := ne_next_of_distance (Int.ne_of_lt behind)
  by_cases none : e.accepted = []
  · have first : e.next = 0 := by
      rw [next, none]
      rfl
    rw [first] at behind
    have far : FrameId.reach < f.id := by
      simp only [FrameId.distance, FrameId.space, FrameId.reach, maxId] at *
      omega
    have misread : e.take f = { e with misread := true } := by
      rw [Epoch.take, if_neg other, if_pos ⟨none, far⟩]
    have same : ({ e with misread := true } : Epoch).next = 0 := first
    rw [misread, same]
    exact .inr ⟨rfl, rfl⟩
  · have some : (e.take f).accepted ≠ [] := by
      rw [accepted_take_of_ne other]
      exact none
    exact (h.take f).names_prev some

end Epoch

/-! ## All epochs -/

/-- What comes of a stream of frames, epoch by epoch. -/
structure History where
  /-- The number of the present epoch. -/
  number : Nat := 0
  epoch : Nat → Epoch := fun _ => {}

namespace History

def present (h : History) : Epoch := h.epoch h.number

/-- The link begins anew. -/
def close (h : History) : History := { h with number := h.number + 1 }

/-- A frame comes; a request to begin anew is one that the link follows. -/
def take (h : History) : Frame → History
  | .data f => { h with epoch := Function.update h.epoch h.number (h.present.take f) }
  | .control f => if f.control = .reset ∧ f.id = 0 then h.close else h

variable (h : History) (f : DataFrame)

theorem present_take : (h.take (.data f)).present = h.present.take f := Function.update_self ..

theorem epoch_take_of_ne {n : Nat} (other : n ≠ h.number) :
    (h.take (.data f)).epoch n = h.epoch n := Function.update_of_ne other ..

theorem within_take (n : Nat) : (h.epoch n).Within ((h.take (.data f)).epoch n) := by
  by_cases same : n = h.number
  · rw [same]
    have grown := h.present.within_take f
    rwa [← present_take] at grown
  · rw [epoch_take_of_ne h f same]
    exact .refl _

end History

/-! ## What a link was given -/

/-- What a link was given: what came of it before the link last began anew of its own accord, and
the bytes received since. -/
structure Intake where
  before : History := {}
  bytes : Bytes := []

namespace Intake

/-- What comes of all that was given. -/
def history (i : Intake) : History := (greedyDecode i.bytes).foldl History.take i.before

def add {δ : Type} (i : Intake) : Act δ → Intake
  | .receive chunk => { i with bytes := i.bytes ++ chunk }
  | .reset => ⟨i.history.close, []⟩
  | _ => i

/-- What a link is given in a run. -/
def ofActs {δ : Type} (acts : List (Act δ)) : Intake := acts.foldl add {}

end Intake

end FramedLink
