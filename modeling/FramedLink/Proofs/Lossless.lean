import FramedLink.Proofs.Capacity
import FramedLink.Proofs.Transmission

/-! # Lines without noise

A line on which nothing is lost and nothing comes in between carries frames and nothing else. The
framer behind it then finds these frames and never loses the stream.
-/

namespace FramedLink

open FramedLink.Frame FramedLink.Framing

variable {δ υ ω : Type}

/-! ## Packets alone -/

/-- Nothing but packets is on the line. -/
def Item.Clear (items : List Item) : Prop := ∀ item ∈ items, ∃ packet, item = .packet packet

theorem Item.Clear.bytes_eq {items : List Item} (clear : Item.Clear items) :
    items.map Item.bytes = (packets items).map Packet.image := by
  induction items with
  | nil => rfl
  | cons item rest ih =>
    obtain ⟨packet, rfl⟩ := clear item List.mem_cons_self
    have later := ih fun other among => clear other (List.mem_cons_of_mem _ among)
    rw [List.map_cons, later]
    rfl

private theorem Item.clear_of_start1 {items : List Item} (valid : ∀ item ∈ items, item.Valid)
    (starts : ∀ bytes ∈ items.map Item.bytes, start1 ∈ bytes) : Item.Clear items := by
  intro item among
  cases item with
  | packet packet => exact ⟨packet, rfl⟩
  | noise bytes =>
    have inside : bytes ∈ items.map Item.bytes := List.mem_map_of_mem (f := Item.bytes) among
    exact absurd (starts bytes inside) (valid _ among)

theorem Item.valid_packets {items : List Item} (valid : ∀ item ∈ items, item.Valid) :
    ∀ packet ∈ packets items, packet.Valid := by
  intro packet among
  obtain ⟨item, inside, same⟩ := List.mem_filterMap.mp among
  cases item with
  | packet =>
    cases same
    exact valid _ inside
  | noise => cases same

private theorem scan_clear {items : List Item} (valid : ∀ item ∈ items, item.Valid)
    (clear : Item.Clear items) (count : Nat) :
    ∃ frames : List Frame,
      (scan 0 ((items.map Item.bytes).flatten.take count)).1 = frames.map .frame := by
  induction items generalizing count with
  | nil => exact ⟨[], by simp [scan]⟩
  | cons item rest ih =>
    have good := valid item List.mem_cons_self
    obtain ⟨packet, rfl⟩ := clear item List.mem_cons_self
    rw [List.map_cons, List.flatten_cons]
    by_cases whole : packet.image.length ≤ count
    · obtain ⟨frames, found⟩ := ih (fun other among => valid other (List.mem_cons_of_mem _ among))
        (fun other among => clear other (List.mem_cons_of_mem _ among))
        (count - packet.image.length)
      refine ⟨packet.frame :: frames, ?_⟩
      simp only [Item.bytes]
      rw [List.take_append, List.take_of_length_le whole, Packet.image, scan_image_append good]
      exact congrArg (Finding.frame packet.frame :: ·) found
    · refine ⟨[], ?_⟩
      simp only [Item.bytes]
      rw [List.take_append_of_le_length (Nat.le_of_not_le whole), Packet.image,
        scan_take_image good (Nat.lt_of_not_le whole)]
      rfl

/-- A framer behind a line of packets never loses the stream. -/
theorem Follows.lossless {f : Framer} {items : List Item} {arrived : Nat}
    (follows : Follows f items arrived) (valid : ∀ item ∈ items, item.Valid)
    (clear : Item.Clear items) (count : Nat) :
    ∀ notice ∈ (f.receive (((items.map Item.bytes).flatten.drop arrived).take count)).2,
      notice.happening ≠ .lost := by
  obtain ⟨frames, all⟩ := scan_clear valid clear (arrived + count)
  rw [follows.scan_eq valid count] at all
  obtain ⟨front, back, rfl, -, found⟩ := List.append_eq_map_iff.mp all
  have read := Framer.reads_receive follows.settled
    (((items.map Item.bytes).flatten.drop arrived).take count)
  have noted := (Account.notes_takeAll
    { f.account with counters.bytes := f.counters.bytes +
      (((items.map Item.bytes).flatten.drop arrived).take count).length } back).happenings
  rw [found, ← read.heard] at noted
  intro notice among lost
  have inside : notice.happening ∈ back.map Happening.frame := noted ▸ List.mem_map_of_mem among
  obtain ⟨frame, -, same⟩ := List.mem_map.mp inside
  rw [lost] at same
  cases same

/-! ## What has arrived -/

namespace Line

theorem mem_beyond {items : List Bytes} {count : Nat} {item : Bytes}
    (among : item ∈ (beyond items count).1) : item ∈ items := by
  induction items generalizing count with
  | nil => exact among
  | cons first rest ih =>
    rw [beyond] at among
    split at among
    · exact List.mem_cons_of_mem _ (ih among)
    · exact among

end Line

/-! ## Nothing but frames -/

namespace LinkState

/-- In every item on the line and every image in the window a frame begins. -/
structure Framed (s : LinkState (Line δ) ω) : Prop where
  stocked : ∃ config, s.window.Stocked config
  images : ∀ f ∈ s.window.frames, start1 ∈ f.image
  items : ∀ item ∈ s.driver.items, start1 ∈ item

variable {s s' : LinkState (Line δ) ω}

private theorem start1_answer {w : SendWindow} (framed : ∀ f ∈ w.frames, start1 ∈ f.image)
    (f : ControlFrame) : ∀ g ∈ (w.answer f).2.frames, start1 ∈ g.image := by
  obtain ⟨released, kept, parts, -, same | same⟩ := w.answer_cases f
  · rw [same]
    exact fun g among => framed g (parts.inOrder.subset among)
  · rw [same]
    intro g among
    obtain ⟨h, inside, rfl⟩ := List.mem_map.mp among
    exact framed h (parts.inOrder.subset inside)

variable [Driver δ]

omit [Driver δ] in
theorem Framed.clear (h : s.Framed) {items : List Item}
    (carried : s.driver.items = items.map Item.bytes) (valid : ∀ item ∈ items, item.Valid) :
    Item.Clear items :=
  Item.clear_of_start1 valid fun bytes among => h.items bytes (carried ▸ among)

theorem Framed.emission (h : s.Framed) (emission : Emission s s') : s'.Framed := by
  obtain ⟨⟨config, stocked⟩, images, items⟩ := h
  let idle : Upper Unit ω := ⟨fun u _ => .done u, fun u _ _ => .done u⟩
  have stocked' : ∃ config, s'.window.Stocked config :=
    ⟨config, (lasting_stocked idle config).emission (u := ()) emission stocked⟩
  have joined {image : Bytes} (starts : start1 ∈ image) :
      ∀ item ∈ s.driver.items ++ [image], start1 ∈ item := by
    intro item among
    rcases List.mem_append.mp among with before | last
    · exact items item before
    · rw [List.mem_singleton.mp last]
      exact starts
  cases emission with
  | handControl => exact ⟨stocked', images, joined List.mem_cons_self⟩
  | @handData sent rest f now _ frames =>
    have here : f ∈ s.window.frames := frames ▸ List.mem_append_right _ List.mem_cons_self
    refine ⟨stocked', fun g among => ?_, joined (images f here)⟩
    rcases List.mem_append.mp among with front | back
    · exact images g (frames ▸ List.mem_append_left _ front)
    · rcases List.mem_cons.mp back with rfl | behind
      · exact images f here
      · exact images g (frames ▸ List.mem_append_right _ (List.mem_cons_of_mem _ behind))
  | @accept metadata payload window _ short _ _ pushed =>
    refine ⟨stocked', fun g among => ?_, items⟩
    obtain ⟨free, -, rfl⟩ := SendWindow.push_eq_some_iff.mp pushed
    rcases List.mem_append.mp among with before | last
    · exact images g before
    · have small : (DataFrame.image ⟨s.nextId, metadata, payload⟩).length ≤
          s.window.pool.blockSize := by
        rw [DataFrame.length_image, stocked.blockSize]
        simp only [maxSize]
        omega
      rw [List.mem_singleton.mp last, SendWindow.image_entering small]
      exact List.mem_cons_self
  | remark => exact ⟨stocked', images, items⟩

theorem Framed.emits (h : s.Framed) (emits : Emits s s') : s'.Framed :=
  emits.keep (fun emission h => Framed.emission h emission) h

theorem enduring_framed (upper : Upper υ ω) :
    Enduring upper fun _ _ (s : LinkState (Line δ) ω) => s.Framed where
  utterance utterance h := h.emits utterance.emits
  reaction := by
    intro u s s' happening calls reaction h
    obtain ⟨⟨config, stocked⟩, images, items⟩ := h
    have stocked' : ∃ config, s'.window.Stocked config :=
      ⟨config, (lasting_stocked upper config).reaction (u := u) reaction stocked⟩
    cases reaction with
    | accept => exact ⟨stocked', images, items⟩
    | again => exact ⟨stocked', images, items⟩
    | ask => exact ⟨stocked', images, items⟩
    | pass => exact ⟨stocked', images, items⟩
    | keep => exact ⟨stocked', start1_answer images _, items⟩
    | release => exact ⟨stocked', start1_answer images _, items⟩
    | resume => exact ⟨stocked', start1_answer images _, items⟩
    | request =>
      refine ⟨stocked', fun g among => ?_, items⟩
      change g ∈ s.window.clear.frames at among
      rw [SendWindow.frames_clear] at among
      cases among
    | response => exact ⟨stocked', images, items⟩
    | lost => exact ⟨stocked', images, items⟩
  told _ _ h := ⟨h.stocked, h.images, h.items⟩
  counted _ h := ⟨h.stocked, h.images, h.items⟩
  disconnected _ h := ⟨h.stocked, h.images, h.items⟩
  rewind := by
    rintro u s ⟨⟨config, stocked⟩, images, items⟩
    refine ⟨⟨config, stocked.rewind⟩, fun g among => ?_, items⟩
    obtain ⟨f, inside, rfl⟩ := List.mem_map.mp among
    exact images f inside
  restarted := by
    rintro u s ⟨⟨config, stocked⟩, images, items⟩
    refine ⟨⟨config, stocked.clear⟩, fun g among => ?_, items⟩
    change g ∈ s.window.clear.frames at among
    rw [SendWindow.frames_clear] at among
    cases among

end LinkState

end FramedLink
