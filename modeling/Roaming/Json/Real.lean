import Roaming.Decimal.Shortest

/-!
# Floating point numbers in JSON texts

A number is written with the fewest digits that read back: positionally from 1e-5 up to below 1e16,
with a point always present, otherwise with a signed exponent. `ofParts` is the value that a literal
has when it is read: the first digits as an integer, scaled by a power of ten in floating point.
-/

set_option autoImplicit false
set_option relaxedAutoImplicit false

namespace Roaming.Json.Real

open Roaming.Decimal

/-- `n` zeros. -/
private def zeros (n : Nat) : String :=
  String.ofList (List.replicate n '0')

/-- The decimal digits of a number. -/
def digits (n : Nat) : List Char :=
  Nat.toDigits 10 n

/-- Lays out a decimal that is not zero. -/
def layout (d : Dec) : String :=
  let ds := digits d.digits
  let n := ds.length
  -- the exponent of the leading digit
  let e : Int := d.exp + (n : Int) - 1
  if -5 ≤ e ∧ e < 16 then
    if 0 ≤ d.exp then String.ofList ds ++ zeros d.exp.toNat ++ ".0"
    else if 0 ≤ e then
      let whole := e.toNat + 1
      String.ofList (ds.take whole) ++ "." ++ String.ofList (ds.drop whole)
    else "0." ++ zeros ((-e).toNat - 1) ++ String.ofList ds
  else
    let mantissa := match ds with
      | [] => ""
      | [c] => String.singleton c
      | c :: rest => String.singleton c ++ "." ++ String.ofList rest
    mantissa ++ "e" ++ (if e < 0 then "-" else "+") ++ toString e.natAbs

/-- The text of a finite number. -/
def render (x : Float) : String :=
  let b := Binary.ofBits x.toBits
  (if x.toBits >>> 63 = 1 then "-" else "") ++
    (if b.m = 0 then "0.0" else layout b.shortest)

/-- The power of ten with exponent `n`, as a floating point number. -/
def tenTo (n : Nat) : Float :=
  Float.ofScientific 1 false n

/-- Scales `f` by `10^exp`, dividing by 1e308 as long as the exponent is below -308 and something is
left. `none` is an overflow. -/
def scale : Nat → Float → Int → Option Float
  | 0, f, _ => some f
  | n + 1, f, exp =>
    if -308 ≤ exp ∧ exp ≤ 308 then
      if 0 ≤ exp then
        let g := f * tenTo exp.toNat
        if g.isInf then none else some g
      else some (f / tenTo (-exp).toNat)
    else if f == 0.0 then some f
    else if 0 ≤ exp then none
    else scale n (f / 1e308) (exp + 308)

/-- The number with the given leading digits and exponent, or `none` when it is out of range. Three
divisions by 1e308 leave nothing of the largest digits. -/
def ofParts (negative : Bool) (significand : Nat) (exp : Int) : Option Float :=
  (scale 4 significand.toUInt64.toFloat exp).map (fun f => if negative then -f else f)

end Roaming.Json.Real
