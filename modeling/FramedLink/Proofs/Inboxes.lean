import FramedLink.Proofs.Lasting
import FramedLink.Proofs.Messages

/-! # Inboxes over a run

Whatever happens to an endpoint, the inbox of each message port is told by the journal of its link:
it takes the frames that are delivered, and gives up what it has of a message whenever the link
forgets its frames. So the messages that arrive in an epoch come of the frames of that epoch.
-/

namespace FramedLink

open Journal

variable {δ κ ω : Type}

namespace Journal

private theorem deliveries_cons (epoch : Nat) (entry : Entry ω) (earlier : List (Entry ω)) :
    (ofEpoch epoch earlier).deliveries <+: (ofEpoch epoch (entry :: earlier)).deliveries := by
  rw [ofEpoch_cons]
  split
  · rcases entry with (_ | _ | _ | _) | _ | _ | _ | _ | _ <;>
      first | exact List.prefix_refl _ | exact List.prefix_append _ _
  · exact List.prefix_refl _

end Journal

namespace Port

open FramedLink.Simulation.Exchange (Letter)

/-! ## Events at message ports -/

/-- A message port that is told of an event. -/
def MessagePort.heed (event : Event) (m : MessagePort κ) : MessagePort κ :=
  if event = .reset then { m with reassembly := m.reassembly.clear } else m

namespace Table

/-- Services and message ports that are told of an event. -/
def heed (t : Table (Service ω ⊕ MessagePort κ)) (event : Event) :
    Table (Service ω ⊕ MessagePort κ) :=
  { t with entries := t.entries.map fun e => { e with handler := e.handler.map id (·.heed event) } }

section Telling

variable [Driver δ] [Consumer κ ω]

private theorem run_onEvent (directory : Directory) (handler : Service ω ⊕ MessagePort κ)
    (event : Event) (s : LinkState δ ω) :
    s.run (Handler.onEvent directory handler event) = (handler.map id (·.heed event), s) := by
  cases handler <;> rfl

private theorem run_tellAll (directory : Directory) (event : Event)
    (entries : List (Entry (Service ω ⊕ MessagePort κ))) (s : LinkState δ ω) :
    s.run (tellAll directory event entries) =
      (entries.map fun e => { e with handler := e.handler.map id (·.heed event) }, s) := by
  induction entries with
  | nil => rfl
  | cons e rest ih =>
    simp only [tellAll, LinkState.run_bind, run_onEvent, ih]
    rfl

theorem run_tell (t : Table (Service ω ⊕ MessagePort κ)) (event : Event) (s : LinkState δ ω) :
    s.run (t.tell event) = (t.heed event, s) := by
  rw [tell, LinkState.run_bind, run_tellAll]
  rfl

end Telling

theorem find?_heed (t : Table (Service ω ⊕ MessagePort κ)) (event : Event) (port : Nat) :
    (t.heed event).find? port =
      (t.find? port).map fun e => { e with handler := e.handler.map id (·.heed event) } := by
  rw [find?, heed, List.find?_map]
  rfl

theorem sorted_heed {t : Table (Service ω ⊕ MessagePort κ)} (sorted : t.Sorted) (event : Event) :
    (t.heed event).Sorted := List.pairwise_map.mpr sorted

end Table

/-! ## Inboxes and journals -/

namespace Inbox

/-- The inbox without what there is of a message. -/
def clear (inbox : Inbox) : Inbox := { inbox with reassembly := inbox.reassembly.clear }

/-- The inbox of a port after a call. -/
def heed (port : Nat) (inbox : Inbox) : Call → Inbox
  | .event .reset => inbox.clear
  | .event _ => inbox
  | .data metadata payload => inbox.hear port (metadata, payload)

/-- The inbox of a port after something was written down. -/
def note (port : Nat) (inbox : Inbox) : FramedLink.Entry ω → Inbox
  | .left (.delivered metadata payload) => inbox.hear port (metadata, payload)
  | .cleared => inbox.clear
  | _ => inbox

/-- What a journal tells of the inbox of a port that was this one at first. -/
def read (port : Nat) (first : Inbox) (journal : List (FramedLink.Entry ω)) : Inbox :=
  journal.foldr (fun entry inbox => inbox.note port entry) first

end Inbox

namespace Table

theorem inbox?_heed (t : Table (Service ω ⊕ MessagePort (Recorded κ))) (event : Event)
    (port : Nat) :
    (t.heed event).inbox? port = (t.inbox? port).map fun inbox =>
      inbox.heed port (.event event) := by
  unfold inbox?
  rw [find?_heed]
  rcases t.find? port with _ | ⟨place, description, service | m⟩
  · rfl
  · rfl
  · cases event with
    | reset => rfl
    | connected => rfl
    | disconnected => rfl

variable {first t : Table (Service ω ⊕ MessagePort (Recorded κ))} {due : List Call}
  {s s' : LinkState δ ω}

/-- With the calls that are due, each inbox is what the journal tells of it. -/
def Reads (first : Table (Service ω ⊕ MessagePort (Recorded κ))) (due : List Call)
    (t : Table (Service ω ⊕ MessagePort (Recorded κ))) (s : LinkState δ ω) : Prop :=
  t.Sorted ∧ ∀ port, (t.inbox? port).map (fun inbox => due.foldl (Inbox.heed port) inbox) =
    (first.inbox? port).map fun inbox =>
      due.foldl (fun inbox call => inbox.note (ω := ω) port (.left call.action))
        (inbox.read port s.journal)

theorem Reads.same (h : Reads first due t s)
    (same : ∀ port inbox, Inbox.read port inbox s'.journal = Inbox.read port inbox s.journal) :
    Reads first due t s' := by
  refine ⟨h.1, fun port => ?_⟩
  simp only [same]
  exact h.2 port

theorem read_utters [Driver δ] (utters : LinkState.Utters s s') (port : Nat) (inbox : Inbox) :
    inbox.read port s'.journal = inbox.read port s.journal := by
  refine utters.emits.keep (P := fun s' => inbox.read port s'.journal = inbox.read port s.journal)
    (fun emission same => ?_) rfl
  refine Eq.trans ?_ same
  cases emission <;> rfl

/-- Whatever a link takes, the inboxes stay what the journal tells. -/
theorem attending_reads [Driver δ] [Consumer κ ω]
    (first : Table (Service ω ⊕ MessagePort (Recorded κ))) :
    LinkState.Attending (δ := δ) Table.upper (Reads first) where
  flush h := h.same (read_utters (.single (.flush _)))
  reaction := by
    intro t s s' happening calls reaction h
    obtain ⟨sorted, inbox⟩ := h
    cases reaction with
    | @accept f =>
      refine ⟨sorted, fun port => ?_⟩
      have same := congrArg (Option.map fun inbox => inbox.hear port (f.metadata, f.payload))
        (inbox port)
      simp only [Option.map_map] at same
      exact same
    | again => exact ⟨sorted, inbox⟩
    | ask => exact ⟨sorted, inbox⟩
    | pass => exact ⟨sorted, inbox⟩
    | keep => exact ⟨sorted, inbox⟩
    | release => exact ⟨sorted, inbox⟩
    | resume => exact ⟨sorted, inbox⟩
    | request =>
      refine ⟨sorted, fun port => ?_⟩
      have same := congrArg (Option.map Inbox.clear) (inbox port)
      simp only [Option.map_map] at same
      exact same
    | response => exact ⟨sorted, inbox⟩
    | lost => exact ⟨sorted, inbox⟩
  tell := by
    rintro ⟨t, s⟩ call due ⟨sorted, inbox⟩
    cases call with
    | event event =>
      have told : LinkState.tell Table.upper (t, s) (.event event) =
          (t.heed event, s.log (.raised event)) := run_tell t event _
      rw [told]
      refine ⟨sorted_heed sorted event, fun port => ?_⟩
      rw [inbox?_heed, Option.map_map]
      exact inbox port
    | data metadata payload =>
      have routed := routed_route sorted metadata payload (s.log (.delivered metadata payload))
      refine Reads.same (s := s.log (.delivered metadata payload)) ⟨routed.sorted, fun port => ?_⟩
        (read_utters (LinkState.utters_run _ _))
      change ((((s.log (.delivered metadata payload)).run
        (t.route metadata payload)).1).inbox? port).map _ = _
      rw [routed.inbox, Option.map_map]
      exact inbox port
  counted _ h := h

theorem Reads.reset [Driver δ] (h : Reads first [] t s) :
    Reads first [] (t.heed .reset) s.restarted.flush := by
  apply Reads.same (s := s.restarted) _ (read_utters (.single (.flush _)))
  refine ⟨sorted_heed h.1 .reset, fun port => ?_⟩
  have same := congrArg (Option.map Inbox.clear) (h.2 port)
  simp only [Option.map_map] at same
  rw [inbox?_heed, Option.map_map]
  exact same

theorem Reads.start (sorted : t.Sorted) (blank : s.journal = []) : Reads t [] t s := by
  refine ⟨sorted, fun port => ?_⟩
  rw [blank]
  rfl

end Table

/-! ## Letters of an epoch -/

/-- The frames that are for a port. -/
def forPort (port : Nat) (frames : List (Nat × Bytes)) : List (Nat × Bytes) :=
  frames.filter fun frame => (Address.unpack frame.1).port = port

theorem forPort_append (port : Nat) (front back : List (Nat × Bytes)) :
    forPort port (front ++ back) = forPort port front ++ forPort port back :=
  List.filter_append front back

theorem forPort_frames {letter : Letter} (mailable : Mailable letter) (port : Nat) :
    forPort port (frames letter) = if letter.port = port then frames letter else [] := by
  have all : ∀ frame ∈ frames letter, (Address.unpack frame.1).port = letter.port := by
    intro frame among
    obtain ⟨part, -, rfl⟩ := List.mem_map.mp among
    rw [mailable.unpack_pack]
  split
  · next here =>
    exact List.filter_eq_self.mpr fun frame among => by simp [all frame among, here]
  · next other =>
    exact List.filter_eq_nil_iff.mpr fun frame among => by simp [all frame among, other]

namespace Inbox

variable {port : Nat} {inbox : Inbox}

private theorem hear_forPort (heard : List (Nat × Bytes)) :
    (forPort port heard).foldl (hear port) inbox = heard.foldl (hear port) inbox := by
  rw [forPort, List.foldl_filter]
  congr 1
  funext inbox frame
  unfold hear
  by_cases here : (Address.unpack frame.1).port = port
  · simp [here]
  · simp [here]

private theorem letters_take (address : Address) (payload : Bytes) :
    inbox.letters <+: (inbox.take address payload).letters := by
  unfold take
  rcases inbox.reassembly.push address.segment payload with ⟨_ | _ | _, _⟩
  · exact List.prefix_refl _
  · exact List.prefix_refl _
  · exact List.prefix_append _ _

private theorem letters_foldl (port : Nat) (heard : List (Nat × Bytes)) :
    inbox.letters <+: (heard.foldl (hear port) inbox).letters := by
  induction heard generalizing inbox with
  | nil => exact List.prefix_refl _
  | cons frame rest ih =>
    refine List.IsPrefix.trans ?_ ih
    unfold hear
    simp only
    split
    · exact letters_take _ _
    · exact List.prefix_refl _

/-- When the frames for a port are a first part of those of some letters, whatever else there is
between them, the inbox gets none but these letters. -/
theorem letters_of_prefix {letters : List Letter} (mailable : ∀ letter ∈ letters, Mailable letter)
    {heard : List (Nat × Bytes)} (first : forPort port heard <+: letters.flatMap frames)
    {letter : Letter} (got : letter ∈ (heard.foldl (hear port) inbox).letters) :
    letter ∈ inbox.letters ∨ letter ∈ letters := by
  obtain ⟨more, whole⟩ := first
  have all := letters_hear mailable port inbox
  rw [← whole, List.foldl_append, hear_forPort] at all
  have later := (letters_foldl port more).subset got
  rw [all] at later
  exact (List.mem_append.mp later).imp_right fun among => (List.mem_filter.mp among).1

/-- Of what the journal tells, every letter is one that the first part of an epoch brings. -/
theorem letters_read {allowed : Letter → Prop} {journal : List (FramedLink.Entry ω)}
    (start : ∀ letter ∈ inbox.letters, allowed letter)
    (brings : ∀ epoch heard (before : Inbox), heard <+: (ofEpoch epoch journal).deliveries →
      (∀ letter ∈ before.letters, allowed letter) →
        ∀ letter ∈ (heard.foldl (hear port) before).letters, allowed letter) :
    ∀ letter ∈ (inbox.read port journal).letters, allowed letter := by
  -- The inbox comes of the frames of the present epoch, on top of what it had before.
  suffices now : ∃ before : Inbox, (∀ letter ∈ before.letters, allowed letter) ∧
      inbox.read port journal = (present journal).deliveries.foldl (hear port) before by
    obtain ⟨before, fine, same⟩ := now
    rw [same]
    exact brings _ _ before (List.prefix_refl _) fine
  induction journal with
  | nil => exact ⟨inbox, start, rfl⟩
  | cons entry earlier ih =>
    have sooner : ∀ epoch heard (before : Inbox), heard <+: (ofEpoch epoch earlier).deliveries →
        (∀ letter ∈ before.letters, allowed letter) →
          ∀ letter ∈ (heard.foldl (hear port) before).letters, allowed letter :=
      fun epoch heard before part => brings epoch heard before
        (part.trans (deliveries_cons epoch entry earlier))
    obtain ⟨before, fine, same⟩ := ih sooner
    rcases entry with (_ | ⟨metadata, payload⟩ | _ | _) | _ | _ | _ | _ | _
    case left.delivered =>
      refine ⟨before, fine, ?_⟩
      rw [present_delivered, Tally.deliver, List.foldl_append, ← same]
      rfl
    case cleared =>
      refine ⟨(inbox.read port earlier).clear, ?_, by rw [present_cleared]; rfl⟩
      change ∀ letter ∈ (inbox.read port earlier).letters, allowed letter
      rw [same]
      exact sooner _ _ before (List.prefix_refl _) fine
    -- Nothing else is a delivery, and the inbox stays.
    all_goals
      refine ⟨before, fine, same.trans ?_⟩
      simp [present, clears, ofEpoch_cons, Tally.add, Tally.accept, Tally.release]

end Inbox

end Port

end FramedLink
