import FramedLink.Proofs.Outstanding

/-! # What an answer releases

The ids of a window's frames rise from the oldest to the newest one, with gaps where single frames
were acknowledged. As long as the newest is less far from the oldest than ids reach, every id is
known to lie on the way between them or not, exactly half a round away included; on the way it
releases the frames up to it or before it, and elsewhere none: `Rising.releases_covered`.
-/

namespace FramedLink

/-! ## Steps -/

namespace FrameId

/-- How many steps lead from `a` to `b`, round and round. -/
def steps (a b : Nat) : Nat := (b + space - a) % space

variable {a b c : Nat}

theorem steps_self (a : Nat) : steps a a = 0 := by
  simp only [steps, space]
  omega

private theorem advance_steps (ha : a < space) (hb : b < space) : advance a (steps a b) = b := by
  simp only [advance, steps, space] at *
  omega

private theorem steps_inj (ha : a < space) (hb : b < space) (hc : c < space)
    (same : steps a b = steps a c) : b = c := by
  rw [← advance_steps ha hb, same, advance_steps ha hc]

theorem steps_next (ha : a < space) (hb : b < space) (near : steps a b < reach) :
    steps a (next b) = steps a b + 1 := by
  simp only [next, advance, steps, space, reach] at *
  omega

theorem steps_prev (ha : a < space) (hb : b < space) (away : a ≠ b) :
    steps a (prev b) + 1 = steps a b := by
  simp only [prev, advance, steps, space] at *
  omega

private theorem steps_prev_self (ha : a < space) : reach < steps a (prev a) := by
  simp only [prev, advance, steps, space, reach] at *
  omega

/-- Two ids are ordered by the steps to them from a third. -/
theorem distance_eq_steps (ha : a < space) (hb : b < space) (hc : c < space)
    (below : steps c a ≤ steps c b + reach) (above : steps c b ≤ steps c a + reach) :
    distance a b = (steps c a : Int) - steps c b := by
  have first : (a : Int) % space = ((c : Int) + steps c a) % space := by
    simp only [steps, space] at *
    omega
  have second : (b : Int) % space = ((c : Int) + steps c b) % space := by
    simp only [steps, space] at *
    omega
  rw [distance_eq first second (by omega) (by omega)]
  omega

/-- What is not on the way from `a` to `b` lies behind `b` or before `a`, whichever sign half a
round has. -/
theorem distance_of_steps_lt (ha : a < space) (hb : b < space) (hc : c < space)
    (near : steps a b < reach) (beyond : steps a b < steps a c) :
    0 < distance c b ∨ 0 < distance a c := by
  simp only [distance, steps, space, reach] at *
  omega

end FrameId

namespace SendWindow

/-! ## Windows with gaps -/

/-- How many steps lead from the oldest frame to `id`. -/
def stepsTo (w : SendWindow) (id : Nat) : Nat :=
  match w.frames.head? with
  | some oldest => FrameId.steps oldest.id id
  | none => 0

/-- The ids rise from the oldest frame to the newest, which is less far away than ids reach. -/
structure Rising (w : SendWindow) : Prop where
  known : ∀ f ∈ w.frames, f.id < FrameId.space
  increasing : w.frames.Pairwise fun f g => w.stepsTo f.id < w.stepsTo g.id
  near : ∀ newest ∈ w.frames.getLast?, w.stepsTo newest.id < FrameId.reach

/-- `id` lies on the way from the oldest frame to the newest or to an id so many steps behind it. -/
def Covers (w : SendWindow) (behind id : Nat) : Prop :=
  ∃ newest, w.frames.getLast? = some newest ∧ w.stepsTo id ≤ w.stepsTo newest.id + behind

/-- The frames of the window are in blocks of its pool. -/
structure Lent (w : SendWindow) : Prop where
  sized : ∀ f ∈ w.frames, f.buffer.capacity = w.pool.blockSize
  room : w.pool.free + w.frames.length ≤ w.pool.blocks

/-- Just the frames for which `gone` holds were released, so many of them, and the others are left
in their order, each changed by `kept`. -/
structure Releases (w : SendWindow) (gone : Outgoing → Bool) (kept : Outgoing → Outgoing)
    (result : Nat × SendWindow) : Prop where
  count : result.1 = (w.frames.filter gone).length
  frames : result.2.frames = (w.frames.filter (! gone ·)).map kept
  capacity : result.2.capacity = w.capacity
  pool : result.2.pool = w.pool.releaseAll ((w.frames.filter gone).map (·.buffer))
  free : w.Lent → result.2.pool = { w.pool with free := w.pool.free + result.1 }

/-! ## What is released -/

variable {w : SendWindow}

theorem Lent.releaseAll (lent : w.Lent) (gone : Outgoing → Bool) :
    w.pool.releaseAll ((w.frames.filter gone).map (·.buffer)) =
      { w.pool with free := w.pool.free + (w.frames.filter gone).length } := by
  rw [Pool.releaseAll_eq, List.length_map]
  · intro buffer among
    obtain ⟨f, kept, rfl⟩ := List.mem_map.mp among
    exact lent.sized f (List.mem_of_mem_filter kept)
  · have room := lent.room
    have fewer := List.length_filter_le gone w.frames
    rw [List.length_map]
    omega

theorem releases_split (gone : Outgoing → Bool) :
    w.Releases gone (fun f => f) ((w.frames.filter gone).length,
      w.split (w.frames.filter gone) (w.frames.filter (! gone ·))) where
  count := rfl
  frames := (List.map_id' _).symm
  capacity := rfl
  pool := rfl
  free lent := lent.releaseAll gone

private theorem releases_nothing {gone : Outgoing → Bool} (none : ∀ f ∈ w.frames, gone f = false) :
    w.Releases gone (fun f => f) (0, w) := by
  have released := releases_split (w := w) gone
  rw [List.filter_eq_nil_iff.mpr (by simpa using none),
    List.filter_eq_self.mpr (by simpa using none)] at released
  exact released

theorem Releases.rewind {gone : Outgoing → Bool} {count : Nat} {w' : SendWindow}
    (h : w.Releases gone (fun f => f) (count, w')) :
    w.Releases gone Outgoing.rewind (count, w'.rewind) where
  count := h.count
  frames := by
    have frames := h.frames
    rw [List.map_id'] at frames
    exact congrArg (List.map Outgoing.rewind) frames
  capacity := h.capacity
  pool := h.pool
  free := h.free

/-! ## The way from the oldest frame to the newest -/

theorem stepsTo_eq {oldest : Outgoing} (first : w.frames.head? = some oldest) :
    w.stepsTo = FrameId.steps oldest.id := by
  funext id
  rw [stepsTo, first]

theorem exists_oldest {f : Outgoing} (among : f ∈ w.frames) :
    ∃ oldest, w.frames.head? = some oldest := by
  obtain ⟨oldest, rest, frames⟩ := List.exists_cons_of_ne_nil (List.ne_nil_of_mem among)
  exact ⟨oldest, by rw [frames, List.head?_cons]⟩

theorem covers_iff {newest : Outgoing} (last : w.frames.getLast? = some newest) {behind id : Nat} :
    w.Covers behind id ↔ w.stepsTo id ≤ w.stepsTo newest.id + behind := by
  constructor
  · rintro ⟨other, same, upTo⟩
    obtain rfl : newest = other := Option.some.inj (last.symm.trans same)
    exact upTo
  · exact fun upTo => ⟨newest, last, upTo⟩

namespace Rising

variable (rising : w.Rising) {id : Nat} (known : id < FrameId.space) {oldest newest f : Outgoing}
include rising

private theorem stepsTo_le (last : w.frames.getLast? = some newest) (among : f ∈ w.frames) :
    w.stepsTo f.id ≤ w.stepsTo newest.id := by
  obtain ⟨front, frames⟩ := List.getLast?_eq_some_iff.mp last
  have increasing := rising.increasing
  rw [frames] at increasing among
  rcases List.mem_append.mp among with before | last
  · have less := (List.pairwise_append.mp increasing).2.2
    exact Nat.le_of_lt (less f before newest (List.mem_singleton_self _))
  · exact Nat.le_of_eq (by rw [List.mem_singleton.mp last])

theorem oldest_known (first : w.frames.head? = some oldest) : oldest.id < FrameId.space :=
  rising.known oldest (List.mem_of_mem_head? first)

theorem newest_known (last : w.frames.getLast? = some newest) : newest.id < FrameId.space :=
  rising.known newest (List.mem_of_mem_getLast? last)

include known

theorem distance_eq (covered : w.Covers 1 id) (among : f ∈ w.frames) :
    FrameId.distance f.id id = (w.stepsTo f.id : Int) - w.stepsTo id := by
  obtain ⟨newest, last, upTo⟩ := covered
  have near := rising.near newest last
  have before := rising.stepsTo_le last among
  obtain ⟨oldest, first⟩ := exists_oldest among
  rw [stepsTo_eq first] at *
  exact FrameId.distance_eq_steps (rising.known f among) known (rising.oldest_known first)
    (by omega) (by omega)

/-- The acknowledgement of an id on the way releases the frames up to it. -/
theorem ackThrough_covered (covered : w.Covers 0 id) :
    w.Releases (fun f => w.stepsTo f.id ≤ w.stepsTo id) (fun f => f) (w.ackThrough id) := by
  obtain ⟨newest, last, upTo⟩ := covered
  have covered : w.Covers 1 id := ⟨newest, last, Nat.le_succ_of_le upTo⟩
  have through : ∀ f ∈ w.frames, isThrough id f = decide (w.stepsTo f.id ≤ w.stepsTo id) := by
    intro f among
    rw [isThrough, rising.distance_eq known covered among]
    exact decide_eq_decide.mpr (by omega)
  have within : ¬ 0 < FrameId.distance id newest.id := by
    rw [FrameId.distance_comm newest.id id,
      rising.distance_eq known covered (List.mem_of_mem_getLast? last)]
    omega
  have earlier : w.frames.Pairwise fun f g => isThrough id g → isThrough id f := by
    apply rising.increasing.imp_of_mem
    intro f g first second less
    rw [through f first, through g second, decide_eq_true_eq, decide_eq_true_eq]
    omega
  obtain ⟨released, left⟩ := takeWhile_eq_filter earlier
  rw [List.filter_congr through] at released
  rw [List.filter_congr fun f among => congrArg not (through f among)] at left
  unfold ackThrough
  rw [last]
  simp only [within, if_false, released, left]
  exact releases_split _

theorem elsewhere (outside : ¬ w.Covers 0 id) (last : w.frames.getLast? = some newest)
    (first : w.frames.head? = some oldest) :
    0 < FrameId.distance id newest.id ∨ 0 < FrameId.distance oldest.id id := by
  have beyond : w.stepsTo newest.id < w.stepsTo id := by
    rw [covers_iff last] at outside
    exact Nat.lt_of_not_le outside
  have near := rising.near newest last
  rw [stepsTo_eq first] at near beyond
  exact FrameId.distance_of_steps_lt (rising.oldest_known first) (rising.newest_known last) known
    near beyond

theorem ackThrough_of_not_covers (outside : ¬ w.Covers 0 id) : w.ackThrough id = (0, w) := by
  unfold ackThrough
  split
  · rfl
  · next newest last =>
    split
    · rfl
    · next within =>
      obtain ⟨oldest, first⟩ := exists_oldest (List.mem_of_mem_getLast? last)
      obtain ⟨rest, frames⟩ := List.head?_eq_some_iff.mp first
      have before := (rising.elsewhere known outside last first).resolve_left within
      have kept : isThrough id oldest = false := decide_eq_false (Int.not_le.mpr before)
      rw [frames, List.takeWhile_cons_of_neg (by simp [kept]),
        List.dropWhile_cons_of_neg (by simp [kept]), ← frames]
      rfl

/-- Only an id on the way, or the one behind the newest, can be asked for. -/
theorem spans_or_next_iff (last : w.frames.getLast? = some newest) :
    (w.spans id || id = FrameId.next newest.id) = true ↔ w.Covers 1 id := by
  obtain ⟨oldest, first⟩ := exists_oldest (List.mem_of_mem_getLast? last)
  have next : w.stepsTo (FrameId.next newest.id) = w.stepsTo newest.id + 1 := by
    have near := rising.near newest last
    rw [stepsTo_eq first] at near ⊢
    exact FrameId.steps_next (rising.oldest_known first) (rising.newest_known last) near
  simp only [spans, first, last, Bool.or_eq_true, Bool.and_eq_true, decide_eq_true_eq]
  constructor
  · rintro (⟨after, upTo⟩ | rfl)
    · by_contra outside
      have narrower : ¬ w.Covers 0 id := by
        rw [covers_iff last] at outside ⊢
        omega
      have apart := rising.elsewhere known narrower last first
      rw [FrameId.distance_comm id oldest.id] at apart
      omega
    · exact (covers_iff last).mpr (Nat.le_of_eq next)
  · intro covered
    rcases Nat.lt_or_eq_of_le ((covers_iff last).mp covered) with inside | behind
    · left
      have toOldest := rising.distance_eq known covered (List.mem_of_mem_head? first)
      have toNewest := rising.distance_eq known covered (List.mem_of_mem_getLast? last)
      rw [FrameId.distance_comm oldest.id, FrameId.distance_comm newest.id, toOldest, toNewest]
      have start : w.stepsTo oldest.id = 0 := by
        rw [stepsTo_eq first, FrameId.steps_self]
      omega
    · right
      rw [← next, stepsTo_eq first] at behind
      exact FrameId.steps_inj (rising.oldest_known first) known (FrameId.next_lt _) behind

theorem nack_covered (covered : w.Covers 1 id) : ∃ released left,
    w.nack id = some (released, left.rewind) ∧
      w.Releases (fun f => w.stepsTo f.id < w.stepsTo id) (fun f => f) (released, left) := by
  obtain ⟨newest, last, upTo⟩ := covered
  have asked := (rising.spans_or_next_iff known last).mpr ⟨newest, last, upTo⟩
  refine ⟨_, _, by unfold nack; rw [last]; simp only [asked, if_true]; rfl, ?_⟩
  obtain ⟨oldest, first⟩ := exists_oldest (List.mem_of_mem_getLast? last)
  by_cases same : oldest.id = id
  · -- The id before that of the oldest frame is far from all of them.
    have start : w.stepsTo id = 0 := by rw [stepsTo_eq first, same, FrameId.steps_self]
    have outside : ¬ w.Covers 0 (FrameId.prev id) := by
      rw [covers_iff last]
      intro upTo
      have near := rising.near newest last
      have far := FrameId.steps_prev_self (rising.oldest_known first)
      rw [stepsTo_eq first] at near upTo
      rw [← same] at upTo
      omega
    rw [rising.ackThrough_of_not_covers (FrameId.prev_lt id) outside]
    exact releases_nothing fun f _ => decide_eq_false (by omega)
  · have step : w.stepsTo (FrameId.prev id) + 1 = w.stepsTo id := by
      rw [stepsTo_eq first]
      exact FrameId.steps_prev (rising.oldest_known first) known same
    have released := rising.ackThrough_covered (FrameId.prev_lt id) ⟨newest, last, by omega⟩
    have before : (fun f : Outgoing => decide (w.stepsTo f.id ≤ w.stepsTo (FrameId.prev id))) =
        fun f => decide (w.stepsTo f.id < w.stepsTo id) :=
      funext fun f => decide_eq_decide.mpr (by omega)
    rw [before] at released
    exact released

theorem nack_of_not_covers (outside : ¬ w.Covers 1 id) : w.nack id = none := by
  unfold nack
  split
  · rfl
  · next newest last =>
    rw [if_neg]
    exact fun asked => outside ((rising.spans_or_next_iff known last).mp asked)

end Rising

/-! ## Answers to windows with gaps -/

/-- An id from the oldest frame to the newest releases the frames up to it, and one more can be
asked for, which releases the frames before it and rewinds the others. Any other id changes
nothing. -/
theorem Rising.releases_covered (rising : w.Rising) {id : Nat} (known : id < FrameId.space) :
    (w.Covers 0 id →
      w.Releases (fun f => w.stepsTo f.id ≤ w.stepsTo id) (fun f => f) (w.ackThrough id)) ∧
    (¬ w.Covers 0 id → w.ackThrough id = (0, w)) ∧
    (w.Covers 1 id → ∃ released left, w.nack id = some (released, left) ∧
      w.Releases (fun f => w.stepsTo f.id < w.stepsTo id) (fun f => { f with phase := .pending })
        (released, left)) ∧
    (¬ w.Covers 1 id → w.nack id = none) := by
  refine ⟨rising.ackThrough_covered known, rising.ackThrough_of_not_covers known, ?_,
    rising.nack_of_not_covers known⟩
  intro covered
  obtain ⟨released, left, answer, releases⟩ := rising.nack_covered known covered
  exact ⟨released, left.rewind, answer, releases.rewind⟩

/-- Three frames around the last id, with gaps between them: the second is acknowledged, and the
one behind the newest is asked for. -/
theorem releases_around :
    let frames : List Outgoing := [2046, 2048, 2051].map fun place =>
      ⟨place % FrameId.space, ⟨[7], 1⟩, .sent, 5, 1, place⟩
    let w : SendWindow := ⟨8, frames, ⟨1, 9, 6⟩, 2052⟩
    w.Rising ∧ 0 < FrameId.space ∧ 4 < FrameId.space ∧ w.Lent ∧ w.Covers 0 0 ∧ ¬ w.Covers 0 4 ∧
      w.Releases (fun f => w.stepsTo f.id ≤ w.stepsTo 0) (fun f => f) (w.ackThrough 0) ∧
      w.ackThrough 0 = (2, ⟨8, frames.drop 2, ⟨1, 9, 8⟩, 2052⟩) ∧ w.ackThrough 4 = (0, w) ∧
      ∃ released left, w.nack 4 = some (released, left) ∧
        w.Releases (fun f => w.stepsTo f.id < w.stepsTo 4) (fun f => { f with phase := .pending })
          (released, left) := by
  intro frames w
  have rising : w.Rising := ⟨by decide, by decide, by decide⟩
  have inside : w.Covers 0 0 := ⟨⟨3, ⟨[7], 1⟩, .sent, 5, 1, 2051⟩, rfl, by decide⟩
  have behind : w.Covers 1 4 := ⟨⟨3, ⟨[7], 1⟩, .sent, 5, 1, 2051⟩, rfl, by decide⟩
  have outside : ¬ w.Covers 0 4 := by
    rintro ⟨newest, last, upTo⟩
    cases last
    exact absurd upTo (by decide)
  obtain ⟨ack, -⟩ := rising.releases_covered (by decide : 0 < FrameId.space)
  obtain ⟨-, none, nack, -⟩ := rising.releases_covered (by decide : 4 < FrameId.space)
  exact ⟨rising, by decide, by decide, ⟨by decide, by decide⟩, inside, outside, ack inside,
    by decide, none outside, nack behind⟩

end SendWindow

end FramedLink
