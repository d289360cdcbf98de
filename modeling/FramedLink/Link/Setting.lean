import FramedLink.Frame.Limits

/-! # Settings

The settings of a link by name, and the ways in which a value can be unfit for one.
-/

namespace FramedLink

inductive Setting where
  /-- The most data frames that may wait for transmission or acknowledgement. -/
  | sendWindow
  /-- The bytes of storage for those frames. -/
  | sendStorage
  /-- How far ahead of the expected id a frame is still asked for again. -/
  | receiveWindow
  /-- The bytes of staging storage for received frames. -/
  | receiveStorage
  /-- The bytes of control frames that may wait for room. -/
  | controlStorage
  /-- The age in milliseconds at which the oldest frame sent is sent again. -/
  | timeout
  /-- The transmissions of one frame after which the link counts as disconnected. -/
  | retries
  deriving DecidableEq, Repr

namespace Setting

/-- Every setting, in the order in which they are written down. -/
def all : List Setting :=
  [sendWindow, sendStorage, receiveWindow, receiveStorage, controlStorage, timeout, retries]

def name : Setting → String
  | sendWindow => "tx_window_size"
  | sendStorage => "tx_buffer_size"
  | receiveWindow => "rx_window_size"
  | receiveStorage => "rx_buffer_size"
  | controlStorage => "tx_link_buffer_size"
  | timeout => "tx_timeout_ms"
  | retries => "max_retries"

/-- The largest value that can be written for a setting. -/
def largest : Setting → Nat
  | retries => 0xFFFFFFFF
  | _ => 0xFFFFFFFFFFFFFFFF

/-- The size of the frame that a storage has to hold. -/
def frameSize : Setting → Nat
  | controlStorage => Frame.controlSize
  | _ => Frame.maxSize

theorem mem_all (setting : Setting) : setting ∈ all := by
  cases setting <;> decide

end Setting

inductive Unfit where
  | zero
  | beyondReach
  | belowFrame
  deriving DecidableEq, Repr

def Unfit.reason : Unfit → String
  | zero => "must be positive"
  | beyondReach => "must not exceed half the frame-id space minus one"
  | belowFrame => "too small to hold one frame"

end FramedLink
