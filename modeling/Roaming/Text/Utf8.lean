/-!
# UTF-8

Byte strings, the UTF-8 form of a text, and two ways back: `ofUtf8?` refuses ill-formed bytes,
`lossy` puts the replacement character for each maximal ill-formed part.
-/

set_option autoImplicit false
set_option relaxedAutoImplicit false

namespace Roaming.Text

/-- A string of bytes, as read from or written to a peer. -/
abbrev Bytes := List UInt8

/-- The UTF-8 form of a text. -/
def utf8 (s : String) : Bytes :=
  s.toList.flatMap String.utf8EncodeChar

/-- The text whose UTF-8 form the bytes are, if there is one. -/
def ofUtf8? (bytes : Bytes) : Option String :=
  String.fromUTF8? (ByteArray.mk bytes.toArray)

/-- A lead byte of a longer character: how many bytes follow it, the range of the first of them,
and the bits that the lead byte contributes. -/
structure Lead where
  follow : Nat
  low : Nat
  high : Nat
  bits : Nat

/-- The lead byte with value `b`, or `none` when no character starts with it. -/
def lead? (b : Nat) : Option Lead :=
  if 0xC2 ≤ b ∧ b ≤ 0xDF then some ⟨1, 0x80, 0xBF, b - 0xC0⟩
  else if b = 0xE0 then some ⟨2, 0xA0, 0xBF, b - 0xE0⟩
  else if b = 0xED then some ⟨2, 0x80, 0x9F, b - 0xE0⟩
  else if 0xE1 ≤ b ∧ b ≤ 0xEF then some ⟨2, 0x80, 0xBF, b - 0xE0⟩
  else if b = 0xF0 then some ⟨3, 0x90, 0xBF, b - 0xF0⟩
  else if b = 0xF4 then some ⟨3, 0x80, 0x8F, b - 0xF0⟩
  else if 0xF1 ≤ b ∧ b ≤ 0xF3 then some ⟨3, 0x80, 0xBF, b - 0xF0⟩
  else none

/-- The character that stands for an ill-formed part. -/
def replacement : Char := '\uFFFD'

/-- Decodes from inside a character: `owed` tells what is still missing of it. A byte that cannot
continue the character ends the ill-formed part before itself and is looked at afresh. -/
def lossyFrom : Option Lead → Bytes → List Char
  | none, [] => []
  | some _, [] => [replacement]
  | owed, b :: rest =>
    let n := b.toNat
    let fresh : List Char :=
      if n < 0x80 then Char.ofNat n :: lossyFrom none rest
      else match lead? n with
        | some l => lossyFrom (some l) rest
        | none => replacement :: lossyFrom none rest
    match owed with
    | none => fresh
    | some l =>
      if l.low ≤ n ∧ n ≤ l.high then
        let bits := l.bits * 64 + (n - 0x80)
        if l.follow = 1 then Char.ofNat bits :: lossyFrom none rest
        else lossyFrom (some ⟨l.follow - 1, 0x80, 0xBF, bits⟩) rest
      else replacement :: fresh

/-- The length of the well-formed front, given the number of bytes of whole characters before
(`whole`) and of the character begun (`begun`), of which `owed` is missing. -/
def soundFrom : Option Lead → Nat → Nat → Bytes → Nat
  | _, whole, _, [] => whole
  | none, whole, _, b :: rest =>
    if b.toNat < 0x80 then soundFrom none (whole + 1) 0 rest
    else match lead? b.toNat with
      | some l => soundFrom (some l) whole 1 rest
      | none => whole
  | some l, whole, begun, b :: rest =>
    if l.low ≤ b.toNat ∧ b.toNat ≤ l.high then
      if l.follow = 1 then soundFrom none (whole + begun + 1) 0 rest
      else soundFrom (some ⟨l.follow - 1, 0x80, 0xBF, 0⟩) whole (begun + 1) rest
    else whole

/-- The number of bytes at the front that are whole characters. -/
def soundLength (bytes : Bytes) : Nat :=
  soundFrom none 0 0 bytes

/-- The text of the bytes, with each maximal ill-formed part replaced. -/
def lossy (bytes : Bytes) : String :=
  String.ofList (lossyFrom none bytes)

end Roaming.Text
