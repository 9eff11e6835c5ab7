import Roaming.Json.Reader

/-!
# Passing over values

`skipValue` passes over the value of a member that nobody asked for. It looks at the grammar only:
there is no limit on depth or on the size of numbers, and texts need not be UTF-8.
-/

set_option autoImplicit false
set_option relaxedAutoImplicit false

namespace Roaming.Json

open Roaming.Text (Bytes)

/-- Passes over a text, behind its opening quote; as many rounds as bytes are enough. -/
def skipTextWith : Nat → Bytes → Except Fault Bytes
  | 0, _ => .error (.here .endInText [])
  | _ + 1, [] => .error (.here .endInText [])
  | fuel + 1, b :: rest =>
    if b = 34 then .ok rest
    else if b = 92 then
      match rest with
      | [] => .error (.here .endInText [])
      | 117 :: rest =>
        match readHex4 rest with
        | .error e => .error e
        | .ok (_, rest) => skipTextWith fuel rest
      | c :: rest =>
        match shortEscape? c with
        | some _ => skipTextWith fuel rest
        | none => .error (.here .invalidEscape rest)
    else if b < 32 then .error (.here .controlCharacter (b :: rest))
    else skipTextWith fuel rest

/-- Passes over a text, behind its opening quote. -/
def skipText (text : Bytes) : Except Fault Bytes :=
  skipTextWith (text.length + 1) text

/-- Passes over an exponent, behind its letter. -/
def skipExponent (text : Bytes) : Except Fault Bytes :=
  match (exponentSign text).2 with
  | [] => .error (.here .invalidNumber [])
  | d :: rest =>
    if isDigit d then .ok (spanDigits rest).2 else .error (.here .invalidNumber rest)

/-- Passes over what may follow the digits of a number. -/
def skipExponentPart (text : Bytes) : Except Fault Bytes :=
  match text with
  | b :: rest => if b = 101 ∨ b = 69 then skipExponent rest else .ok (b :: rest)
  | [] => .ok []

/-- Passes over a fraction, behind its point. -/
def skipFraction (text : Bytes) : Except Fault Bytes :=
  match spanDigits text with
  | ([], rest) => .error (.next .invalidNumber rest)
  | (_ :: _, rest) => skipExponentPart rest

/-- Passes over what follows the integer part of a number. -/
def skipAfterInteger (text : Bytes) : Except Fault Bytes :=
  match text with
  | 46 :: rest => skipFraction rest
  | rest => skipExponentPart rest

/-- Passes over a number without its sign. -/
def skipUnsigned (text : Bytes) : Except Fault Bytes :=
  match text with
  | [] => .error (.here .invalidNumber [])
  | d :: rest =>
    if d = 48 then
      match rest with
      | e :: _ => if isDigit e then .error (.next .invalidNumber rest) else skipAfterInteger rest
      | [] => .ok []
    else if isDigit d then skipAfterInteger (spanDigits rest).2
    else .error (.here .invalidNumber rest)

/-- Passes over a number. -/
def skipNumber (text : Bytes) : Except Fault Bytes :=
  match text with
  | 45 :: rest => skipUnsigned rest
  | rest => skipUnsigned rest

/-- Passes over a member's name and the colon behind it. -/
def skipName (text : Bytes) : Except Fault Bytes :=
  match skipBlanks text with
  | [] => .error (.next .endInObject [])
  | 34 :: rest => do readColon (← skipText rest)
  | rest => .error (.next .keyNotText rest)

mutual

/-- Passes over a value. -/
def skipValueWith : Nat → Bytes → Except Fault Bytes
  | 0, rest => .error (.next .expectedValue rest)
  | fuel + 1, text =>
    match skipBlanks text with
    | [] => .error (.next .endInValue [])
    | b :: rest =>
      if b = 110 then readWord nullTail rest
      else if b = 116 then readWord trueTail rest
      else if b = 102 then readWord falseTail rest
      else if startsNumber b then skipNumber (b :: rest)
      else if b = 34 then skipText rest
      else if b = 91 then
        match skipBlanks rest with
        | [] => .error (.next .endInList [])
        | 93 :: rest => .ok rest
        | rest => skipItems fuel rest
      else if b = 123 then
        match skipBlanks rest with
        | [] => .error (.next .endInObject [])
        | 125 :: rest => .ok rest
        | rest => skipMembers fuel rest
      else .error (.next .expectedValue (b :: rest))

/-- Passes over the items of a list, of which there is at least one, and its closing bracket. -/
def skipItems : Nat → Bytes → Except Fault Bytes
  | 0, rest => .error (.next .expectedValue rest)
  | fuel + 1, text =>
    match skipValueWith fuel text with
    | .error e => .error e
    | .ok rest =>
      match skipBlanks rest with
      | [] => .error (.next .endInList [])
      | 93 :: rest => .ok rest
      | 44 :: rest => skipItems fuel rest
      | rest => .error (.next .expectedListCommaOrEnd rest)

/-- Passes over the members of an object, of which there is at least one, and its closing brace. -/
def skipMembers : Nat → Bytes → Except Fault Bytes
  | 0, rest => .error (.next .expectedValue rest)
  | fuel + 1, text =>
    match skipName text with
    | .error e => .error e
    | .ok rest =>
      match skipValueWith fuel rest with
      | .error e => .error e
      | .ok rest =>
        match skipBlanks rest with
        | [] => .error (.next .endInObject [])
        | 125 :: rest => .ok rest
        | 44 :: rest => skipMembers fuel rest
        | rest => .error (.next .expectedObjectCommaOrEnd rest)

end

/-- Passes over a value of any kind. -/
def skipValue (text : Bytes) : Except Fault Bytes :=
  skipValueWith (rounds text) text

end Roaming.Json
