/-!
# Durations

A duration counts nanoseconds. It is written in the largest of the four units that it fills, with
the digits behind the point that are needed; the clock goes by whole milliseconds, so a duration
takes as many of them as cover it.
-/

set_option autoImplicit false
set_option relaxedAutoImplicit false

namespace Roaming

/-- A span of time in nanoseconds. -/
structure Duration where
  nanos : Nat
deriving DecidableEq, Repr

namespace Duration

/-- The duration of `n` milliseconds. -/
def ofMillis (n : Nat) : Duration := ⟨n * 1000000⟩

/-- The whole milliseconds that cover a duration. -/
def millis (d : Duration) : Nat := (d.nanos + 999999) / 1000000

/-- The digits of `n` behind the point, `places` of them, without the zeros at the end. -/
def fraction (places n : Nat) : String :=
  let digits := Nat.toDigits 10 n
  let padded := List.replicate (places - digits.length) '0' ++ digits
  match (padded.reverse.dropWhile (· == '0')).reverse with
  | [] => ""
  | digits => "." ++ String.ofList digits

/-- A duration in a unit that counts `size` nanoseconds, a one with `places` zeros. -/
def inUnit (places size : Nat) (unit : String) (d : Duration) : String :=
  toString (d.nanos / size) ++ fraction places (d.nanos % size) ++ unit

/-- The text of a duration. -/
def render (d : Duration) : String :=
  if 1000000000 ≤ d.nanos then d.inUnit 9 1000000000 "s"
  else if 1000000 ≤ d.nanos then d.inUnit 6 1000000 "ms"
  else if 1000 ≤ d.nanos then d.inUnit 3 1000 "µs"
  else d.inUnit 0 1 "ns"

end Duration

end Roaming
