import Mathlib.Logic.Relation
import FramedLink.Link

/-! # What a link does of its own accord

While it flushes, sends or runs a script a link does four things only: it hands over a control
frame, hands over a data frame, accepts a data frame, or passes on a remark. An emission is one of
these together with what has to be the case for it, so a property that four cases keep is kept by
everything that the layer above does with a link.
-/

namespace FramedLink.LinkState

variable {δ ω α : Type} [Driver δ]

inductive Emission : LinkState δ ω → LinkState δ ω → Prop where
  /-- The control frame that has waited longest is handed over. -/
  | handControl {s : LinkState δ ω} {f : ControlFrame} {rest : List ControlFrame}
      (first : s.control.waiting = f :: rest) (space : Frame.controlSize ≤ s.space) :
      Emission s { s.hand f.image with
        control.waiting := rest
        status.tx.controlFrames := s.status.tx.controlFrames + 1 }
  /-- The first pending frame is handed over while no control frame waits. The clock was read
  before. -/
  | handData {s : LinkState δ ω} {sent rest : List Outgoing} {f : Outgoing} (now : Nat)
      (none : s.control.waiting = []) (frames : s.window.frames = sent ++ f :: rest)
      (before : ∀ g ∈ sent, g.phase = .sent) (pending : f.phase = .pending)
      (space : f.image.length ≤ s.space) :
      Emission s { s.handOutgoing f with window.frames := sent ++ f.markSent now :: rest }
  | accept {s : LinkState δ ω} {metadata : Nat} {payload : Bytes} {window : SendWindow}
      (some : payload ≠ []) (short : payload.length ≤ Frame.maxPayload)
      (fits : metadata ≤ Frame.maxMetadata) (room : s.window.isFull = false)
      (pushed : s.window.push s.nextId (DataFrame.image ⟨s.nextId, metadata, payload⟩) =
        .some window) :
      Emission s
        ({ s with window, nextId := FrameId.next s.nextId }.note (.accepted metadata payload))
  | remark (s : LinkState δ ω) (r : ω) : Emission s (s.log (.remarked r))

/-- Several emissions, one after the other. -/
abbrev Emits : LinkState δ ω → LinkState δ ω → Prop := Relation.ReflTransGen Emission

theorem Emits.keep {P : LinkState δ ω → Prop} (step : ∀ {s s'}, Emission s s' → P s → P s')
    {s s' : LinkState δ ω} (emits : Emits s s') (holds : P s) : P s' := by
  induction emits with
  | refl => exact holds
  | tail _ last ih => exact step last ih

/-! ## Flushing -/

/-- A frame is handed over: a control frame, or a data frame for which the clock was read. -/
inductive Handing : Option Nat → LinkState δ ω → LinkState δ ω → Prop where
  | control {s : LinkState δ ω} {f : ControlFrame} {rest : List ControlFrame}
      (first : s.control.waiting = f :: rest) (space : Frame.controlSize ≤ s.space) :
      Handing none s { s.hand f.image with
        control.waiting := rest
        status.tx.controlFrames := s.status.tx.controlFrames + 1 }
  | data {s : LinkState δ ω} {sent rest : List Outgoing} {f : Outgoing} {now : Nat}
      (none : s.control.waiting = []) (frames : s.window.frames = sent ++ f :: rest)
      (before : ∀ g ∈ sent, g.phase = .sent) (pending : f.phase = .pending)
      (space : f.image.length ≤ s.space) :
      Handing (some now) s
        { s.handOutgoing f with window.frames := sent ++ f.markSent now :: rest }

/-- Several frames of one kind are handed over, one after the other. -/
abbrev Hands (now : Option Nat) : LinkState δ ω → LinkState δ ω → Prop :=
  Relation.ReflTransGen (Handing now)

theorem Handing.emission {now : Option Nat} {s s' : LinkState δ ω} (handing : Handing now s s') :
    Emission s s' := by
  cases handing with
  | control first space => exact .handControl first space
  | data none frames before pending space => exact .handData _ none frames before pending space

theorem hands_handControls (queue : List ControlFrame) (s : LinkState δ ω) :
    Hands none { s with control.waiting := queue }
      { (handControls queue s).2 with control.waiting := (handControls queue s).1 } := by
  induction queue generalizing s with
  | nil => exact .refl
  | cons f rest ih =>
    rw [handControls]
    split
    · exact .refl
    · next space =>
      apply Relation.ReflTransGen.head
      · exact .control rfl (Nat.le_of_not_lt space)
      · exact ih { s.hand f.image with status.tx.controlFrames := s.status.tx.controlFrames + 1 }

/-- The frames in front have been handed over before. -/
theorem hands_handPending (now : Nat) (sent frames : List Outgoing)
    (before : ∀ g ∈ sent, g.phase = .sent) (s : LinkState δ ω) :
    Hands (some now) { s with control.waiting := [], window.frames := sent ++ frames }
      { (handPending now frames s).2 with
        control.waiting := []
        window.frames := sent ++ (handPending now frames s).1 } := by
  induction frames generalizing sent s with
  | nil => exact .refl
  | cons f rest ih =>
    have joined {g : Outgoing} (phase : g.phase = .sent) : ∀ h ∈ sent ++ [g], h.phase = .sent := by
      intro h among
      rcases List.mem_append.mp among with earlier | last
      · exact before h earlier
      · rw [List.mem_singleton.mp last]
        exact phase
    rw [handPending]
    split
    · next phase =>
      have later := ih (sent ++ [f]) (joined phase) s
      simp only [List.append_assoc, List.singleton_append] at later
      exact later
    · next phase =>
      split
      · exact .refl
      · next space =>
        have pending : f.phase = .pending := by
          cases same : f.phase with
          | pending => rfl
          | sent => exact absurd same phase
        have later := ih (sent ++ [f.markSent now]) (joined rfl) (s.handOutgoing f)
        simp only [List.append_assoc, List.singleton_append] at later
        apply Relation.ReflTransGen.head
        · exact .data rfl rfl before pending (Nat.le_of_not_lt space)
        · exact later

/-- To flush is to hand over control frames, then to read the clock, and then to hand over data
frames. -/
theorem hands_flush (s : LinkState δ ω) :
    ∃ m : LinkState δ ω, Hands none s m ∧ Hands (some m.clock) m s.flush := by
  have controls := hands_handControls s.control.waiting s
  unfold flush
  split
  · next left =>
    rw [left] at controls
    exact ⟨_, controls, .refl⟩
  · next s' left =>
    rw [left] at controls
    exact ⟨_, controls, hands_handPending s'.clock [] s'.window.frames nofun s'⟩

theorem Hands.keep {now : Option Nat} {P : LinkState δ ω → Prop}
    (step : ∀ {s s'}, Handing now s s' → P s → P s') {s s' : LinkState δ ω} (hands : Hands now s s')
    (holds : P s) : P s' := by
  induction hands with
  | refl => exact holds
  | tail _ last ih => exact step last ih

/-- What control frames keep leads, when the clock is read, to what data frames keep. -/
theorem keep_flush {P : LinkState δ ω → Prop} {R : Nat → LinkState δ ω → Prop}
    (control : ∀ {s s'}, Handing none s s' → P s → P s') (read : ∀ {s}, P s → R s.clock s)
    (data : ∀ {now s s'}, Handing (some now) s s' → R now s → R now s') {s : LinkState δ ω}
    (holds : P s) : ∃ now, R now s.flush := by
  obtain ⟨m, controls, others⟩ := hands_flush s
  exact ⟨m.clock, Hands.keep data others (read (Hands.keep control controls holds))⟩

theorem Hands.emits {now : Option Nat} {s s' : LinkState δ ω} (hands : Hands now s s') :
    Emits s s' :=
  hands.lift id fun _ _ handing => handing.emission

theorem emits_flush (s : LinkState δ ω) : Emits s s.flush := by
  obtain ⟨m, controls, data⟩ := hands_flush s
  exact (Hands.emits controls).trans (Hands.emits data)

/-! ## Sending -/

/-- An emission as the layer above knows it: a flush is one of them, however much it hands over. -/
inductive Utterance : LinkState δ ω → LinkState δ ω → Prop where
  | flush (s : LinkState δ ω) : Utterance s s.flush
  | accept {s : LinkState δ ω} {metadata : Nat} {payload : Bytes} {window : SendWindow}
      (some : payload ≠ []) (short : payload.length ≤ Frame.maxPayload)
      (fits : metadata ≤ Frame.maxMetadata) (room : s.window.isFull = false)
      (pushed : s.window.push s.nextId (DataFrame.image ⟨s.nextId, metadata, payload⟩) =
        .some window) :
      Utterance s
        ({ s with window, nextId := FrameId.next s.nextId }.note (.accepted metadata payload))
  | remark (s : LinkState δ ω) (r : ω) : Utterance s (s.log (.remarked r))

/-- Several utterances, one after the other. -/
abbrev Utters : LinkState δ ω → LinkState δ ω → Prop := Relation.ReflTransGen Utterance

theorem Utters.keep {P : LinkState δ ω → Prop} (step : ∀ {s s'}, Utterance s s' → P s → P s')
    {s s' : LinkState δ ω} (utters : Utters s s') (holds : P s) : P s' := by
  induction utters with
  | refl => exact holds
  | tail _ last ih => exact step last ih

theorem Utterance.emits {s s' : LinkState δ ω} (utterance : Utterance s s') : Emits s s' := by
  cases utterance with
  | flush => exact emits_flush s
  | accept some short fits room pushed => exact .single (.accept some short fits room pushed)
  | remark => exact .single (.remark s _)

theorem Utters.emits {s s' : LinkState δ ω} (utters : Utters s s') : Emits s s' :=
  utters.lift' id fun _ _ utterance => utterance.emits

theorem utters_send (s : LinkState δ ω) (metadata : Nat) (payload : Bytes) :
    Utters s (s.send metadata payload).2 := by
  unfold send
  split
  · exact .refl
  · next short =>
    split
    · exact .refl
    · next some =>
      split
      · exact .refl
      · next fits =>
        split
        · exact .refl
        · next room =>
          simp only
          split
          · exact .refl
          · next window pushed =>
            apply Relation.ReflTransGen.head
            · exact .accept some (Nat.le_of_not_lt short) (Nat.le_of_not_lt fits)
                (by simpa using room) pushed
            · exact .single (.flush _)

theorem emits_send (s : LinkState δ ω) (metadata : Nat) (payload : Bytes) :
    Emits s (s.send metadata payload).2 :=
  Utters.emits (utters_send s metadata payload)

theorem utters_run (script : Script ω α) (s : LinkState δ ω) : Utters s (s.run script).2 := by
  induction script generalizing s with
  | done => exact .refl
  | send metadata payload next ih => exact (utters_send s metadata payload).trans (ih _ _)
  | status next ih => exact ih _ s
  | clock next ih => exact ih _ s
  | capacity next ih => exact ih _ s
  | remark r next ih => exact .head (.remark s r) (ih _)

theorem emits_run (script : Script ω α) (s : LinkState δ ω) : Emits s (s.run script).2 :=
  Utters.emits (utters_run script s)

end FramedLink.LinkState
