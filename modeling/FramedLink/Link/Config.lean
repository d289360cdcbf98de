import FramedLink.Fault
import FramedLink.Frame.Id

/-! # The configuration of a link

A configuration gives every setting a value. `validate` names the first value that is unfit, by a
fixed order of rules; `ofDocument?` reads a configuration that was written down, as a record or as
a row of values.
-/

namespace FramedLink

structure Config where
  sendWindow : Nat := 32
  sendStorage : Nat := 32 * Frame.maxSize
  receiveWindow : Nat := 64
  receiveStorage : Nat := Frame.maxSize
  controlStorage : Nat := 64 * Frame.controlSize
  timeout : Nat := 100
  retries : Nat := 16
  deriving DecidableEq, Repr, Inhabited

namespace Config

def get (c : Config) : Setting → Nat
  | .sendWindow => c.sendWindow
  | .sendStorage => c.sendStorage
  | .receiveWindow => c.receiveWindow
  | .receiveStorage => c.receiveStorage
  | .controlStorage => c.controlStorage
  | .timeout => c.timeout
  | .retries => c.retries

def set (c : Config) (setting : Setting) (value : Nat) : Config :=
  match setting with
  | .sendWindow => { c with sendWindow := value }
  | .sendStorage => { c with sendStorage := value }
  | .receiveWindow => { c with receiveWindow := value }
  | .receiveStorage => { c with receiveStorage := value }
  | .controlStorage => { c with controlStorage := value }
  | .timeout => { c with timeout := value }
  | .retries => { c with retries := value }

theorem get_set (c : Config) (s t : Setting) (value : Nat) :
    (c.set s value).get t = if t = s then value else c.get t := by
  cases s <;> cases t <;> rfl

/-- The data frames that the storage holds. -/
def sendBlocks (c : Config) : Nat := c.sendStorage / Frame.maxSize

/-- The control frames that may wait. -/
def controlFrames (c : Config) : Nat := c.controlStorage / Frame.controlSize

/-! ## Fitness -/

/-- What is asked of a configuration, in the order in which it is checked. -/
def rules : List (Setting × Unfit) :=
  [(.sendWindow, .zero), (.receiveWindow, .zero), (.timeout, .zero), (.retries, .zero),
   (.sendWindow, .beyondReach), (.receiveWindow, .beyondReach),
   (.sendStorage, .belowFrame), (.receiveStorage, .belowFrame), (.controlStorage, .belowFrame)]

def breaks (setting : Setting) (value : Nat) : Unfit → Bool
  | .zero => value = 0
  | .beyondReach => FrameId.reach < value
  | .belowFrame => value < setting.frameSize

def validate (c : Config) : Except Fault Unit :=
  match rules.find? fun (setting, unfit) => breaks setting (c.get setting) unfit with
  | some (setting, unfit) => .error (.invalidSetting setting (c.get setting) unfit)
  | none => .ok ()

structure Valid (c : Config) : Prop where
  sendWindow : 0 < c.sendWindow ∧ c.sendWindow ≤ FrameId.reach
  receiveWindow : 0 < c.receiveWindow ∧ c.receiveWindow ≤ FrameId.reach
  timeout : 0 < c.timeout
  retries : 0 < c.retries
  sendStorage : Frame.maxSize ≤ c.sendStorage
  receiveStorage : Frame.maxSize ≤ c.receiveStorage
  controlStorage : Frame.controlSize ≤ c.controlStorage

theorem validate_eq_ok_iff {c : Config} : c.validate = .ok () ↔ c.Valid := by
  have kept : c.validate = .ok () ↔ ∀ r ∈ rules, breaks r.1 (c.get r.1) r.2 = false := by
    unfold validate
    split
    · next found =>
      have broken := List.find?_some found
      have listed := List.mem_of_find?_eq_some found
      simp only [reduceCtorEq, false_iff]
      intro all
      simp [all _ listed] at broken
    · next found => simpa using found
  rw [kept]
  have spelled : (∀ r ∈ rules, breaks r.1 (c.get r.1) r.2 = false) ↔
      c.sendWindow ≠ 0 ∧ c.receiveWindow ≠ 0 ∧ c.timeout ≠ 0 ∧ c.retries ≠ 0 ∧
        c.sendWindow ≤ FrameId.reach ∧ c.receiveWindow ≤ FrameId.reach ∧
        Frame.maxSize ≤ c.sendStorage ∧ Frame.maxSize ≤ c.receiveStorage ∧
        Frame.controlSize ≤ c.controlStorage := by
    simp only [rules, List.forall_mem_cons, List.not_mem_nil, false_implies, implies_true, get]
    simp only [breaks, decide_eq_false_iff_not, Nat.not_lt, and_true]
    simp only [Setting.frameSize, ne_eq]
  rw [spelled]
  constructor
  · rintro ⟨_, _, _, _, _, _, _, _, _⟩
    constructor <;> omega
  · rintro ⟨⟨_, _⟩, ⟨_, _⟩, _, _, _, _, _⟩
    omega

theorem valid_default : Valid {} := validate_eq_ok_iff.mp rfl

/-! ## Written configurations -/

/-- A configuration as it is written down. A value that is no natural number is `none`. -/
inductive Document where
  | record (fields : List (String × Option Nat))
  | row (values : List (Option Nat))

/-- The configuration with a written value in it, if the value can be written for the setting. -/
def setWritten? (c : Config) (setting : Setting) (value : Option Nat) : Option Config :=
  match value with
  | some n => if n ≤ setting.largest then some (c.set setting n) else none
  | none => none

/-- The configuration written down. Settings left out keep their defaults, and names that are no
settings are passed over. -/
def ofDocument? : Document → Option Config
  | .record fields =>
    Setting.all.foldlM (fun c setting =>
      match fields.lookup setting.name with
      | none => some c
      | some value => c.setWritten? setting value) {}
  | .row values =>
    if values.length ≤ Setting.all.length then
      (Setting.all.zip values).foldlM (fun c (setting, value) => c.setWritten? setting value) {}
    else none

end Config

end FramedLink
