import Roaming.Json.Fault

/-!
# Number literals

Reads a number literal and classifies it: a literal without fraction and exponent is a whole number
when it is in range and not `-0`, any other is a float. Digits are collected into a 64-bit
significand as long as they fit; further ones only move the exponent (before the point) or are
passed over (behind it).
-/

set_option autoImplicit false
set_option relaxedAutoImplicit false

namespace Roaming.Json

open Roaming.Text (Bytes)

/-- A number literal as it was classified. -/
inductive Number where
  | whole (n : Whole)
  | real (x : Float)

/-- The number as a value. -/
def Number.toValue : Number → Value
  | .whole n => .whole n
  | .real x => .real x

/-- What the number is found to be. -/
def Number.found : Number → Found
  | .whole n => .whole n.val
  | .real x => .real x

/-- Whether the byte is a decimal digit. -/
def isDigit (b : UInt8) : Bool :=
  48 ≤ b && b ≤ 57

/-- The value of a decimal digit. -/
def digitValue (b : UInt8) : Nat :=
  b.toNat - 48

/-- The digits at the front, and what follows them. -/
def spanDigits (rest : Bytes) : Bytes × Bytes :=
  rest.span isDigit

/-- Appends digits to a significand up to the first that does not fit below `bound`; the digits from
there on are the second component. -/
def absorb (bound : Nat) : Nat → Bytes → Nat × Bytes
  | sig, [] => (sig, [])
  | sig, d :: ds =>
    if sig * 10 + digitValue d ≤ bound then absorb bound (sig * 10 + digitValue d) ds
    else (sig, d :: ds)

/-- The largest significand. -/
def maxSignificand : Nat := 18446744073709551615

/-- The largest exponent that is taken as written. -/
def maxExponent : Nat := 2147483647

/-- The float with the given parts; a fault of range is noticed where the literal ends. -/
def finishReal (negative : Bool) (sig : Nat) (exp : Int) (rest : Bytes) :
    Except Fault (Float × Bytes) :=
  match Real.ofParts negative sig exp with
  | some x => .ok (x, rest)
  | none => .error (.here .numberOutOfRange rest)

/-- The sign of an exponent, if there is one: whether it is negative, and what follows it. -/
def exponentSign : Bytes → Bool × Bytes
  | 43 :: rest => (false, rest)
  | 45 :: rest => (true, rest)
  | rest => (false, rest)

/-- Reads an exponent, behind its letter. -/
def readExponent (negative : Bool) (sig : Nat) (start : Int) (text : Bytes) :
    Except Fault (Float × Bytes) :=
  let (down, signless) := exponentSign text
  match signless with
  | [] => .error (.here .endInValue [])
  | d :: rest =>
    if isDigit d then
      let (ds, behind) := spanDigits rest
      match absorb maxExponent (digitValue d) ds with
      | (e, []) => finishReal negative sig (if down then start - e else start + e) behind
      | (_, _ :: more) =>
        -- an exponent beyond all bounds: nothing is left, or too much
        if sig ≠ 0 ∧ !down then .error (.here .numberOutOfRange (more ++ behind))
        else .ok (if negative then -0.0 else 0.0, behind)
    else .error (.here .invalidNumber rest)

/-- Reads what follows a significand whose fraction is complete. -/
def readExponentPart (negative : Bool) (sig : Nat) (exp : Int) (text : Bytes) :
    Except Fault (Float × Bytes) :=
  match text with
  | b :: rest =>
    if b = 101 ∨ b = 69 then readExponent negative sig exp rest
    else finishReal negative sig exp text
  | [] => finishReal negative sig exp text

/-- Reads a fraction, behind its point, and what follows it. -/
def readFraction (negative : Bool) (sig : Nat) (exp : Int) (text : Bytes) :
    Except Fault (Float × Bytes) :=
  let (ds, behind) := spanDigits text
  match ds, behind with
  | [], [] => .error (.next .endInValue [])
  | [], rest => .error (.next .invalidNumber rest)
  | _, _ =>
    let (sig', surplus) := absorb maxSignificand sig ds
    readExponentPart negative sig' (exp - (ds.length - surplus.length : Nat)) behind

/-- The number without fraction and exponent: minus zero and what is below the range are floats. -/
def wholeNumber (negative : Bool) (sig : Nat) : Number :=
  if negative then
    if sig = 0 then .real (-0.0)
    else match Whole.ofInt? (-(sig : Int)) with
      | some n => .whole n
      | none => .real (-(sig.toUInt64.toFloat))
  else match Whole.ofInt? sig with
    | some n => .whole n
    | none => .real sig.toUInt64.toFloat

/-- Reads what follows the digits of the integer part; `surplus` of them did not fit. -/
def readAfterInteger (negative : Bool) (sig surplus : Nat) (text : Bytes) :
    Except Fault (Number × Bytes) :=
  let asReal (r : Except Fault (Float × Bytes)) : Except Fault (Number × Bytes) :=
    r.map (fun p => (.real p.1, p.2))
  match text with
  | 46 :: rest => asReal (readFraction negative sig surplus rest)
  | 101 :: rest => asReal (readExponent negative sig surplus rest)
  | 69 :: rest => asReal (readExponent negative sig surplus rest)
  | rest =>
    if surplus = 0 then .ok (wholeNumber negative sig, rest)
    else asReal (finishReal negative sig surplus rest)

/-- Reads a number without its sign. -/
def readUnsigned (negative : Bool) (text : Bytes) : Except Fault (Number × Bytes) :=
  match text with
  | [] => .error (.here .endInValue [])
  | d :: rest =>
    if d = 48 then
      match rest with
      | e :: _ =>
        if isDigit e then .error (.next .invalidNumber rest)
        else readAfterInteger negative 0 0 rest
      | [] => readAfterInteger negative 0 0 rest
    else if isDigit d then
      let (ds, behind) := spanDigits rest
      let (sig, surplus) := absorb maxSignificand (digitValue d) ds
      readAfterInteger negative sig surplus.length behind
    else .error (.here .invalidNumber rest)

/-- Whether a number literal starts with this byte. -/
def startsNumber (b : UInt8) : Bool :=
  b == 45 || isDigit b

/-- Reads a number literal; the text starts with a minus sign or a digit. -/
def readNumber (text : Bytes) : Except Fault (Number × Bytes) :=
  match text with
  | 45 :: rest => readUnsigned true rest
  | rest => readUnsigned false rest

end Roaming.Json
