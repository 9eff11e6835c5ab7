import Roaming.Json.Fault

/-!
# Text literals

Reads a text between double quotes: escapes are resolved, controls refused, and the bytes of the
whole text must be UTF-8, which is looked at behind the closing quote. The place of bytes that are
not UTF-8 is counted back from there.
-/

set_option autoImplicit false
set_option relaxedAutoImplicit false

namespace Roaming.Json

open Roaming.Text (Bytes ofUtf8? soundLength)

/-- The value of a hexadecimal digit. -/
def hexValue? (b : UInt8) : Option Nat :=
  if 48 ≤ b ∧ b ≤ 57 then some (b.toNat - 48)
  else if 97 ≤ b ∧ b ≤ 102 then some (b.toNat - 87)
  else if 65 ≤ b ∧ b ≤ 70 then some (b.toNat - 55)
  else none

/-- Reads four hexadecimal digits. -/
def readHex4 : Bytes → Except Fault (Nat × Bytes)
  | a :: b :: c :: d :: rest =>
    match hexValue? a, hexValue? b, hexValue? c, hexValue? d with
    | some a, some b, some c, some d => .ok (((a * 16 + b) * 16 + c) * 16 + d, rest)
    | _, _, _, _ => .error (.here .invalidEscape rest)
  | _ => .error (.here .endInText [])

/-- What an escape of one letter stands for. -/
def shortEscape? (b : UInt8) : Option UInt8 :=
  if b = 34 ∨ b = 92 ∨ b = 47 then some b
  else if b = 98 then some 8
  else if b = 102 then some 12
  else if b = 110 then some 10
  else if b = 114 then some 13
  else if b = 116 then some 9
  else none

/-- Reads the second half of a surrogate pair, whose first half was `high`. -/
def readLowSurrogate (high : Nat) : Bytes → Except Fault (Nat × Bytes)
  | [] => .error (.here .endInText [])
  | 92 :: [] => .error (.here .endInText [])
  | 92 :: 117 :: rest => do
    let (low, rest) ← readHex4 rest
    if 0xDC00 ≤ low ∧ low ≤ 0xDFFF then
      return ((high - 0xD800) * 0x400 + (low - 0xDC00) + 0x10000, rest)
    else throw (.here .loneSurrogate rest)
  | 92 :: _ :: rest => .error (.here .endOfHexEscape rest)
  | _ :: rest => .error (.here .endOfHexEscape rest)

/-- Reads an escape by number, behind its letter, and gives the UTF-8 form of its character. -/
def readNumberedEscape (text : Bytes) : Except Fault (Bytes × Bytes) := do
  let (n, rest) ← readHex4 text
  if 0xDC00 ≤ n ∧ n ≤ 0xDFFF then throw (.here .loneSurrogate rest)
  let (n, rest) ← if 0xD800 ≤ n ∧ n ≤ 0xDBFF then readLowSurrogate n rest else pure (n, rest)
  return (String.utf8EncodeChar (Char.ofNat n), rest)

/-- Reads an escape, behind its backslash. -/
def readEscape : Bytes → Except Fault (Bytes × Bytes)
  | [] => .error (.here .endInText [])
  | 117 :: rest => readNumberedEscape rest
  | b :: rest =>
    match shortEscape? b with
    | some c => .ok ([c], rest)
    | none => .error (.here .invalidEscape rest)

/-- Reads the bytes of a text up to its closing quote; `taken` holds what came before, last byte
first. Each round passes at least one byte, so as many rounds as bytes are enough. -/
def readTextBytes : Nat → Bytes → Bytes → Except Fault (Bytes × Bytes)
  | 0, _, _ => .error (.here .endInText [])
  | _ + 1, _, [] => .error (.here .endInText [])
  | fuel + 1, taken, b :: rest =>
    if b = 34 then .ok (taken.reverse, rest)
    else if b = 92 then
      match readEscape rest with
      | .ok (bytes, rest) => readTextBytes fuel (bytes.reverse ++ taken) rest
      | .error e => .error e
    else if b < 32 then .error (.here .controlCharacter rest)
    else readTextBytes fuel (b :: taken) rest

/-- Reads a text, behind its opening quote. -/
def readText (text : Bytes) : Except Fault (String × Bytes) := do
  let (bytes, rest) ← readTextBytes (text.length + 1) [] text
  match ofUtf8? bytes with
  | some s => return (s, rest)
  | none => throw (.placed .invalidCodePoint (rest.length + (bytes.length - soundLength bytes)))

end Roaming.Json
