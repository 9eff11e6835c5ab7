/-!
# Numbers in digits

Reading a number that is a whole text.
-/

set_option autoImplicit false
set_option relaxedAutoImplicit false

namespace Roaming.Text

/-- The number that digits stand for, if there is nothing but digits, and some. -/
def natOfDigits? (digits : List Char) : Option Nat :=
  if digits ≠ [] ∧ digits.all Char.isDigit then
    some (digits.foldl (fun n c => n * 10 + (c.toNat - 48)) 0)
  else none

/-- The value of a hexadecimal digit. -/
def hexDigit? (c : Char) : Option Nat :=
  let n := c.toNat
  if 48 ≤ n ∧ n ≤ 57 then some (n - 48)
  else if 65 ≤ n ∧ n ≤ 70 then some (n - 55)
  else if 97 ≤ n ∧ n ≤ 102 then some (n - 87)
  else none

/-- The number that digits stand for in a base of sixteen at most; no digits stand for zero. -/
def natOfBase? (base : Nat) (digits : List Char) : Option Nat :=
  digits.foldlM (fun n c => ((hexDigit? c).filter (· < base)).map fun d => n * base + d) 0

/-- The number that a text denotes, with an optional sign. -/
def intOfText? (s : String) : Option Int :=
  match s.toList with
  | '-' :: digits => (natOfDigits? digits).map fun n => -(n : Int)
  | '+' :: digits => (natOfDigits? digits).map fun n => (n : Int)
  | digits => (natOfDigits? digits).map fun n => (n : Int)

/-- The number that a text denotes, if it lies between the bounds. -/
def boundedInt? (low high : Int) (s : String) : Option Int :=
  (intOfText? s).filter fun n => decide (low ≤ n ∧ n ≤ high)

/-- The least number of 64 bits. -/
def minInt64 : Int := -9223372036854775808

/-- The largest number of 64 bits. -/
def maxInt64 : Int := 9223372036854775807

/-- The 64-bit number that a text denotes. -/
def int64? (s : String) : Option Int := boundedInt? minInt64 maxInt64 s

end Roaming.Text
