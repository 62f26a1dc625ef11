import RingWallet.Saturating

/-!
# Delays between attempts

After a failed attempt the wallet waits. The first delay is given, each further one is half as long
again, and none is longer than the larger of the two bounds. Delays are counted in nanoseconds and
scaled as doubles (`Delay.toFloat`, `Delay.ofFloat`), so a delay of more than some months is only
about as long as these rules say.
-/

set_option autoImplicit false

namespace RingWallet

/-- A time span in nanoseconds; the whole seconds of it are a 64-bit word. -/
structure Delay where
  nanos : Nat
deriving DecidableEq

namespace Delay

/-- Nanoseconds in a second. -/
def nanosPerSecond : Nat := 1000000000

/-- Nanoseconds in a millisecond. -/
def nanosPerMs : Nat := 1000000

def ofMs (ms : Nat) : Delay := ⟨ms * nanosPerMs⟩

/-- The whole milliseconds of a delay. -/
def ms (d : Delay) : Nat := d.nanos / nanosPerMs

/-- Whole milliseconds are kept. -/
theorem ms_ofMs (n : Nat) : (ofMs n).ms = n := Nat.mul_div_cancel n (Nat.zero_lt_succ 999999)

/-- The nanoseconds as a double. Seconds and the rest of the last one are rounded apart. -/
def toFloat (d : Delay) : Float :=
  (UInt64.ofNat (d.nanos / nanosPerSecond)).toFloat * 1e9
    + (UInt64.ofNat (d.nanos % nanosPerSecond)).toFloat

/-- The delay of a number of nanoseconds. Seconds and the rest of the last one are cut off apart,
and the rest is that of the largest word for a number beyond the words. -/
def ofFloat (x : Float) : Delay :=
  ⟨(x / 1e9).toUInt64.toNat * nanosPerSecond + x.toUInt64.toNat % nanosPerSecond⟩

/-- The time that is waited for a delay. -/
def waited (d : Delay) : Delay := ofFloat d.toFloat

/-- How much longer each delay is than the one before it. -/
def growth : Float := 1.5

/-- The delay after a given one; none is longer than `longest`. -/
def next (d longest : Delay) : Delay :=
  if longest.toFloat / growth ≤ d.toFloat then longest else ofFloat (d.toFloat * growth)

end Delay

/-- How often to try again, and how long to wait in between. -/
structure RetryPolicy where
  /-- Attempts after the first failed one. -/
  maxRetries : Nat := 3
  /-- The first delay, in milliseconds. -/
  initialMs : UInt64 := 500
  /-- The longest delay, in milliseconds. -/
  maxMs : UInt64 := 5000
deriving DecidableEq

namespace RetryPolicy

def firstDelay (p : RetryPolicy) : Delay := .ofMs p.initialMs.toNat

/-- No delay is longer than this. -/
def longestDelay (p : RetryPolicy) : Delay := .ofMs (max p.maxMs.toNat p.initialMs.toNat)

/-- The delay after a given one. -/
def nextDelay (p : RetryPolicy) (d : Delay) : Delay := d.next p.longestDelay

/-- The first `count` delays, from `d` on. -/
def delaysFrom (p : RetryPolicy) : (count : Nat) → (d : Delay) → List Delay
  | 0, _ => []
  | count + 1, d => d :: delaysFrom p count (p.nextDelay d)

/-- The first `count` waits in whole milliseconds. -/
def waitsMs (p : RetryPolicy) (count : Nat) : List Nat :=
  (p.delaysFrom count p.firstDelay).map fun d => d.waited.ms

end RetryPolicy

end RingWallet
