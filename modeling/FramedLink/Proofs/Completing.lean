import FramedLink.Port.Reassembly

/-! # When a message is complete

Segments can come in any order. A reassembly gives a message exactly with a segment that ends a
message, when a segment that begins one came before it with only middle segments between them (or it
is a message by itself), and when the payloads from the one to the other are not too long together.
What a reassembly keeps is a function of the segments it got: the bytes of the message they leave
unfinished, or nothing.
-/

namespace FramedLink.Port.Reassembly

/-- The segments a reassembly is given, in order. -/
abbrev Parts := List (Segment × Bytes)

/-- The reassembly before its first segment. -/
def fresh (limit : Nat) : Reassembly := { limit }

/-- What becomes of a reassembly with several segments. -/
def pushAll (r : Reassembly) (parts : Parts) : Reassembly :=
  parts.foldl (fun r part => (r.push part.1 part.2).2) r

/-! ## The message that segments leave unfinished -/

/-- The bytes of a message with a segment that goes on with it, or begins another. -/
def extended (bytes : Option Bytes) (part : Segment × Bytes) : Option Bytes :=
  (if part.1.isStart then some [] else bytes).map (· ++ part.2)

/-- The bytes of the message that is unfinished after another segment. -/
def continued (bytes : Option Bytes) (part : Segment × Bytes) : Option Bytes :=
  if part.1.isStop then none else extended bytes part

/-- The bytes of the message that segments leave unfinished, of whatever length. -/
def unfinished (parts : Parts) : Option Bytes := parts.foldl continued none

/-- The reassembly with these bytes of a message, unless they are too many. -/
def holding (limit : Nat) : Option Bytes → Reassembly
  | none => fresh limit
  | some bytes => if bytes.length ≤ limit then ⟨limit, bytes, true⟩ else fresh limit

variable {limit : Nat} {bytes : Option Bytes} {part : Segment × Bytes}

@[simp] theorem holding_limit (limit : Nat) (bytes : Option Bytes) :
    (holding limit bytes).limit = limit := by
  cases bytes with
  | none => rfl
  | some bytes =>
    simp only [holding]
    split <;> rfl

theorem holding_short {bytes : Bytes} (short : bytes.length ≤ limit) :
    holding limit (some bytes) = ⟨limit, bytes, true⟩ := if_pos short

theorem holding_long {bytes : Bytes} (long : limit < bytes.length) :
    holding limit (some bytes) = fresh limit := if_neg (Nat.not_le_of_lt long)

theorem push_short {message : Bytes} (whole : extended bytes part = some message)
    (short : message.length ≤ limit) :
    (holding limit bytes).push part.1 part.2 =
      if part.1.isStop then (.ok (some message), fresh limit)
      else (.ok none, ⟨limit, message, true⟩) := by
  unfold extended at whole
  by_cases first : part.1.isStart
  · rw [if_pos first] at whole
    obtain rfl : [] ++ part.2 = message := Option.some.inj whole
    have small : ¬ limit < 0 + part.2.length := by simpa using short
    simp only [push, first, holding_limit, List.length_nil, small, clear, fresh,
      Bool.true_eq_false, false_and, if_false, if_true]
  · rw [if_neg first] at whole
    obtain ⟨before, rfl, rfl⟩ := Option.map_eq_some_iff.mp whole
    have small : ¬ limit < before.length + part.2.length := by
      simpa only [List.length_append, Nat.not_lt] using short
    rw [holding_short (by omega)]
    simp only [push, first, small, clear, fresh, Bool.true_eq_false, and_false, if_false,
      Bool.false_eq_true]

theorem push_refused
    (refused : ¬ ∃ message, extended bytes part = some message ∧ message.length ≤ limit) :
    ∃ fault, (holding limit bytes).push part.1 part.2 = (.error fault, fresh limit) := by
  unfold extended at refused
  by_cases first : part.1.isStart
  · rw [if_pos first] at refused
    have big : limit < 0 + part.2.length := by simpa using refused
    simp only [push, first, holding_limit, List.length_nil, big, clear, fresh,
      Bool.true_eq_false, false_and, if_false, if_true]
    exact ⟨_, rfl⟩
  · rw [if_neg first] at refused
    -- What was begun has grown too long already, or does so now.
    have idle : ∃ fault, (fresh limit).push part.1 part.2 = (.error fault, fresh limit) := by
      simp [push, first, fresh]
    cases bytes with
    | none => exact idle
    | some before =>
      by_cases long : limit < before.length
      · rw [holding_long long]
        exact idle
      · have big : limit < before.length + part.2.length := by
          simpa using refused
        rw [holding_short (Nat.le_of_not_lt long)]
        simp only [push, first, big, clear, fresh, Bool.true_eq_false, and_false, if_false,
          if_true, Bool.false_eq_true]
        exact ⟨_, rfl⟩

theorem push_holding (limit : Nat) (bytes : Option Bytes) (part : Segment × Bytes) :
    ((holding limit bytes).push part.1 part.2).2 = holding limit (continued bytes part) := by
  unfold continued
  by_cases taken : ∃ message, extended bytes part = some message ∧ message.length ≤ limit
  · obtain ⟨message, whole, short⟩ := taken
    rw [push_short whole short]
    split
    · rfl
    · rw [whole, holding_short short]
  · obtain ⟨fault, pushed⟩ := push_refused taken
    rw [pushed]
    split
    · rfl
    · cases whole : extended bytes part with
      | none => rfl
      | some message =>
        exact (holding_long (Nat.lt_of_not_le fun short => taken ⟨message, whole, short⟩)).symm

theorem push_completes (message : Bytes) :
    ((holding limit bytes).push part.1 part.2).1 = .ok (some message) ↔
      part.1.isStop ∧ extended bytes part = some message ∧ message.length ≤ limit := by
  constructor
  · intro pushed
    by_cases taken : ∃ message, extended bytes part = some message ∧ message.length ≤ limit
    · obtain ⟨whole, isWhole, short⟩ := taken
      rw [push_short isWhole short] at pushed
      by_cases last : part.1.isStop
      · rw [if_pos last] at pushed
        cases pushed
        exact ⟨last, isWhole, short⟩
      · rw [if_neg last] at pushed
        cases pushed
    · obtain ⟨fault, failed⟩ := push_refused taken
      rw [failed] at pushed
      cases pushed
  · rintro ⟨last, whole, short⟩
    rw [push_short whole short, if_pos last]

/-- Whatever the segments are, a reassembly holds what they leave unfinished. -/
theorem pushAll_fresh (limit : Nat) (parts : Parts) :
    (fresh limit).pushAll parts = holding limit (unfinished parts) := by
  have onwards (bytes : Option Bytes) :
      (holding limit bytes).pushAll parts = holding limit (parts.foldl continued bytes) := by
    induction parts generalizing bytes with
    | nil => rfl
    | cons part parts ih =>
      simp only [pushAll, List.foldl_cons, push_holding] at ih ⊢
      exact ih (continued bytes part)
  exact onwards none

/-! ## From one segment to another -/

variable {parts : Parts} {i j : Nat}

def marker (parts : Parts) (k : Nat) : Option Segment := parts[k]?.map Prod.fst

theorem marker_of (there : parts[j]? = some part) : marker parts j = some part.1 := by
  rw [marker, there, Option.map_some]

/-- The payloads from one segment until before another, joined. -/
def stretch (parts : Parts) (i j : Nat) : Bytes := ((parts.take j).drop i).flatMap Prod.snd

/-- A message begins with one segment and is not at an end before another. -/
structure Begun (parts : Parts) (i j : Nat) : Prop where
  order : i < j
  starts : marker parts i = some .start
  between : ∀ k, i < k → k < j → marker parts k = some .middle

/-- One segment to another make a message, and a short enough one. -/
structure Spans (limit : Nat) (parts : Parts) (i j : Nat) : Prop where
  order : i ≤ j
  starts : marker parts i = some .start ∨ (i = j ∧ marker parts j = some .single)
  between : ∀ k, i < k → k < j → marker parts k = some .middle
  short : (stretch parts i (j + 1)).length ≤ limit

theorem stretch_succ (order : i ≤ j) (there : parts[j]? = some part) :
    stretch parts i (j + 1) = stretch parts i j ++ part.2 := by
  have within : j < parts.length := List.getElem?_eq_some_iff.mp there |>.1
  unfold stretch
  rw [List.take_add_one, there, Option.toList_some, List.drop_append_of_le_length,
    List.flatMap_append, List.flatMap_singleton]
  simp only [List.length_take]
  omega

private theorem stretch_self (parts : Parts) (i : Nat) : stretch parts i i = [] := by
  simp [stretch]

theorem stretch_alone (there : parts[j]? = some part) : stretch parts j (j + 1) = part.2 := by
  rw [stretch_succ (Nat.le_refl j) there, stretch_self, List.nil_append]

private theorem begun_succ : Begun parts i (j + 1) ↔
    (i = j ∧ marker parts j = some .start) ∨ (Begun parts i j ∧ marker parts j = some .middle) := by
  constructor
  · rintro ⟨order, starts, between⟩
    rcases Nat.lt_succ_iff_lt_or_eq.mp order with earlier | rfl
    · right
      have ends := between j earlier (Nat.lt_succ_self j)
      exact ⟨⟨earlier, starts, fun k after before => between k after (by omega)⟩, ends⟩
    · left
      exact ⟨rfl, starts⟩
  · rintro (⟨rfl, starts⟩ | ⟨⟨order, starts, between⟩, middle⟩)
    · exact ⟨Nat.lt_succ_self i, starts, fun k after before => by omega⟩
    · refine ⟨by omega, starts, fun k after before => ?_⟩
      rcases Nat.lt_succ_iff_lt_or_eq.mp before with earlier | rfl
      · exact between k after earlier
      · exact middle

/-- Segments leave a message unfinished when one of them begins it and only middle segments come
after that. -/
theorem unfinished_take (within : j ≤ parts.length) (message : Bytes) :
    unfinished (parts.take j) = some message ↔
      ∃ i, Begun parts i j ∧ message = stretch parts i j := by
  induction j generalizing message with
  | zero =>
    constructor
    · intro nothing
      cases nothing
    · rintro ⟨i, begun, -⟩
      exact absurd begun.order (Nat.not_lt_zero i)
  | succ j ih =>
    obtain ⟨part, there⟩ : ∃ part, parts[j]? = some part :=
      ⟨parts[j], List.getElem?_eq_getElem within⟩
    have marked : marker parts j = some part.1 := marker_of there
    have next : unfinished (parts.take (j + 1)) =
        continued (unfinished (parts.take j)) part := by
      rw [List.take_add_one, there, Option.toList_some, unfinished, List.foldl_append]
      rfl
    obtain ⟨segment, payload⟩ := part
    simp only [next, begun_succ, marked]
    cases segment with
    | start =>
      -- This segment begins the message, whatever was unfinished.
      simp only [continued, extended, Segment.isStart, Segment.isStop]
      constructor
      · intro whole
        refine ⟨j, .inl ⟨rfl, trivial⟩, ?_⟩
        rw [stretch_alone there]
        exact (Option.some.inj whole).symm
      · rintro ⟨i, (⟨rfl, -⟩ | ⟨-, other⟩), rfl⟩
        · rw [stretch_alone there]
          rfl
        · cases other
    | middle =>
      -- This segment goes on with what was unfinished.
      have goesOn : continued (unfinished (parts.take j)) (.middle, payload) =
          (unfinished (parts.take j)).map (· ++ payload) := rfl
      rw [goesOn, Option.map_eq_some_iff]
      constructor
      · rintro ⟨before, started, rfl⟩
        obtain ⟨i, begun, rfl⟩ := (ih (by omega) before).mp started
        exact ⟨i, .inr ⟨begun, rfl⟩, (stretch_succ (Nat.le_of_lt begun.order) there).symm⟩
      · rintro ⟨i, (⟨-, other⟩ | ⟨begun, -⟩), rfl⟩
        · cases other
        · exact ⟨stretch parts i j, (ih (by omega) _).mpr ⟨i, begun, rfl⟩,
            (stretch_succ (Nat.le_of_lt begun.order) there).symm⟩
    | stop =>
      constructor
      · intro nothing
        cases nothing
      · rintro ⟨i, (⟨-, other⟩ | ⟨-, other⟩), -⟩ <;> cases other
    | single =>
      constructor
      · intro nothing
        cases nothing
      · rintro ⟨i, (⟨-, other⟩ | ⟨-, other⟩), -⟩ <;> cases other

/-! ## What a reassembly gives -/

theorem Begun.unique {k : Nat} (begun : Begun parts i j) (other : Begun parts k j) : i = k := by
  rcases Nat.lt_trichotomy i k with before | same | after
  · have middle := begun.between k before other.order
    rw [other.starts] at middle
    cases middle
  · exact same
  · have middle := other.between i after begun.order
    rw [begun.starts] at middle
    cases middle

theorem Spans.begun (spans : Spans limit parts i j) (last : marker parts j = some .stop) :
    Begun parts i j := by
  rcases spans.starts with starts | ⟨-, alone⟩
  · refine ⟨Nat.lt_of_le_of_ne spans.order ?_, starts, spans.between⟩
    rintro rfl
    rw [starts] at last
    cases last
  · rw [alone] at last
    cases last

theorem spans_alone (there : parts[j]? = some part) (alone : part.1 = .single)
    (short : part.2.length ≤ limit) : Spans limit parts j j := by
  have marked := marker_of there
  rw [alone] at marked
  refine ⟨Nat.le_refl j, .inr ⟨rfl, marked⟩, fun k after before => by omega, ?_⟩
  rw [stretch_alone there]
  exact short

theorem Spans.last_short (spans : Spans limit parts i j) (there : parts[j]? = some part) :
    part.2.length ≤ limit := by
  have total := spans.short
  rw [stretch_succ spans.order there, List.length_append] at total
  omega

theorem Spans.latest (spans : Spans limit parts i j) (there : parts[j]? = some part)
    (last : part.1.isStop) :
    ∃ i, Spans limit parts i j ∧ ∀ k, Spans limit parts k j → k ≤ i := by
  have ends : part.1 = .stop ∨ part.1 = .single := by simpa [Segment.isStop] using last
  rcases ends with stop | single
  · have marked := marker_of there
    rw [stop] at marked
    exact ⟨i, spans, fun k other =>
      Nat.le_of_eq ((other.begun marked).unique (spans.begun marked))⟩
  · exact ⟨j, spans_alone there single (spans.last_short there), fun k other => other.order⟩

private theorem extended_stop (there : parts[j]? = some part) (last : part.1 = .stop)
    (message : Bytes) :
    extended (unfinished (parts.take j)) part = some message ↔
      ∃ i, Begun parts i j ∧ message = stretch parts i (j + 1) := by
  have within : j ≤ parts.length := Nat.le_of_lt (List.getElem?_eq_some_iff.mp there |>.1)
  have goesOn : part.1.isStart = false := by rw [last]; rfl
  simp only [extended, goesOn, Bool.false_eq_true, if_false, Option.map_eq_some_iff,
    unfinished_take within]
  constructor
  · rintro ⟨before, ⟨i, begun, rfl⟩, rfl⟩
    exact ⟨i, begun, (stretch_succ (Nat.le_of_lt begun.order) there).symm⟩
  · rintro ⟨i, begun, rfl⟩
    exact ⟨stretch parts i j, ⟨i, begun, rfl⟩,
      (stretch_succ (Nat.le_of_lt begun.order) there).symm⟩

/-- A message that a segment completes is made of the segments from the latest one that it can
begin with. -/
theorem push_completes_iff (there : parts[j]? = some part) (message : Bytes) :
    (((fresh limit).pushAll (parts.take j)).push part.1 part.2).1 = .ok (some message) ↔
      part.1.isStop ∧ ∃ i, Spans limit parts i j ∧ (∀ k, Spans limit parts k j → k ≤ i) ∧
        message = stretch parts i (j + 1) := by
  have marked := marker_of there
  rw [pushAll_fresh, push_completes, and_congr_right_iff]
  intro last
  cases segment : part.1 with
  | start => rw [segment] at last; cases last
  | middle => rw [segment] at last; cases last
  | single =>
    -- A message by itself is complete whatever was unfinished.
    have whole : extended (unfinished (parts.take j)) part = some part.2 := by
      rw [extended, segment]
      rfl
    rw [whole, Option.some.injEq]
    constructor
    · rintro ⟨rfl, short⟩
      exact ⟨j, spans_alone there segment short, fun k spans => spans.order,
        (stretch_alone there).symm⟩
    · rintro ⟨i, spans, latest, rfl⟩
      have short := spans.last_short there
      obtain rfl : i = j :=
        Nat.le_antisymm spans.order (latest j (spans_alone there segment short))
      rw [stretch_alone there]
      exact ⟨rfl, short⟩
  | stop =>
    rw [segment] at marked
    rw [extended_stop there segment]
    constructor
    · rintro ⟨⟨i, begun, rfl⟩, short⟩
      have spans : Spans limit parts i j :=
        ⟨Nat.le_of_lt begun.order, .inl begun.starts, begun.between, short⟩
      refine ⟨i, spans, fun k other => ?_, rfl⟩
      exact Nat.le_of_eq ((other.begun marked).unique begun)
    · rintro ⟨i, spans, -, rfl⟩
      exact ⟨⟨i, spans.begun marked, rfl⟩, spans.short⟩

/-- The states a reassembly can get into. -/
inductive Reached (limit : Nat) : Reassembly → Prop where
  | fresh : Reached limit (fresh limit)
  | push {r : Reassembly} (segment : Segment) (payload : Bytes) :
    Reached limit r → Reached limit (r.push segment payload).2
  | clear {r : Reassembly} : Reached limit r → Reached limit r.clear

/-- A reassembly always holds one message in part, or none. -/
theorem Reached.holding {r : Reassembly} (reached : Reached limit r) :
    ∃ bytes, r = holding limit bytes := by
  induction reached with
  | fresh => exact ⟨none, rfl⟩
  | push segment payload reached ih =>
    obtain ⟨bytes, rfl⟩ := ih
    exact ⟨_, push_holding limit bytes (segment, payload)⟩
  | clear reached ih =>
    obtain ⟨bytes, rfl⟩ := ih
    refine ⟨none, ?_⟩
    rw [Reassembly.clear, holding_limit]
    rfl

/-- A reassembly gives a message exactly with a segment that ends one, when one that begins it came
before with only middle segments between them (or the segment is a message by itself) and the
payloads from there on are short enough. The message is then these payloads, from the latest segment
it can begin with. What is kept is never too long, and nothing is kept of no message. -/
theorem answers_of_parts (limit : Nat) :
    (∀ (parts : Parts) (j : Fin parts.length),
      let answer := (((fresh limit).pushAll (parts.take j)).push parts[j].1 parts[j].2).1
      ((∃ message, answer = .ok (some message)) ↔
        (parts[j].1 = .single ∨ parts[j].1 = .stop) ∧ ∃ i, Spans limit parts i j) ∧
      ∀ message, answer = .ok (some message) →
        ∃ i, Spans limit parts i j ∧ (∀ k, Spans limit parts k j → k ≤ i) ∧
          message = stretch parts i (j + 1)) ∧
    ∀ r, Reached limit r → r.partly.length ≤ limit ∧ (r.active = false → r.partly = []) := by
  constructor
  · intro parts j answer
    have there : parts[j.val]? = some parts[j] := List.getElem?_eq_getElem j.isLt
    have ends : parts[j].1 = .single ∨ parts[j].1 = .stop ↔ parts[j].1.isStop := by
      simp [Segment.isStop, or_comm]
    simp only [answer, push_completes_iff there]
    constructor
    · rw [ends]
      constructor
      · rintro ⟨message, last, i, spans, -⟩
        exact ⟨last, i, spans⟩
      · rintro ⟨last, i, spans⟩
        obtain ⟨first, spans, latest⟩ := spans.latest there last
        exact ⟨_, last, first, spans, latest, rfl⟩
    · rintro message ⟨-, complete⟩
      exact complete
  · intro r reached
    obtain ⟨bytes, rfl⟩ := reached.holding
    cases bytes with
    | none => exact ⟨Nat.zero_le limit, fun _ => rfl⟩
    | some bytes =>
      by_cases short : bytes.length ≤ limit
      · rw [holding_short short]
        exact ⟨short, fun idle => by cases idle⟩
      · rw [holding_long (Nat.lt_of_not_le short)]
        exact ⟨Nat.zero_le limit, fun _ => rfl⟩

end FramedLink.Port.Reassembly
