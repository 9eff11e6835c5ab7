import Roaming.Text.Utf8

/-!
# PEM files

A PEM file holds sections between a line `-----BEGIN label-----` and a line `-----END label-----`,
each with binary content in base 64. Lines outside of sections are passed over, and so are sections
with labels that are not in use here.
-/

set_option autoImplicit false
set_option relaxedAutoImplicit false

namespace Roaming.Tls

open Roaming.Text (Bytes utf8)

/-- What a section holds. -/
inductive Label where
  | certificate
  | pkcs1Key
  | pkcs8Key
  | sec1Key
  /-- A revocation list, a signing request or a public key. -/
  | foreign
deriving DecidableEq, Repr

/-- The labels in use, as they are written. -/
def Label.table : List (String × Label) :=
  [("CERTIFICATE", .certificate), ("RSA PRIVATE KEY", .pkcs1Key), ("PRIVATE KEY", .pkcs8Key),
    ("EC PRIVATE KEY", .sec1Key), ("X509 CRL", .foreign), ("CERTIFICATE REQUEST", .foreign),
    ("PUBLIC KEY", .foreign), ("ECHCONFIG", .foreign)]

/-- The label with the given text. -/
def Label.ofBytes? (text : Bytes) : Option Label :=
  (table.find? (fun entry => utf8 entry.1 == text)).map (·.2)

/-- Whether a label stands for a private key. -/
def Label.isKey : Label → Bool
  | .pkcs1Key | .pkcs8Key | .sec1Key => true
  | _ => false

/-- A section of a PEM file. -/
structure Section where
  label : Label
  content : Bytes

/-! ### Base 64 -/

/-- The value of a digit in base 64. -/
def digit64? (b : UInt8) : Option Nat :=
  let n := b.toNat
  if 65 ≤ n ∧ n ≤ 90 then some (n - 65)
  else if 97 ≤ n ∧ n ≤ 122 then some (n - 71)
  else if 48 ≤ n ∧ n ≤ 57 then some (n + 4)
  else if n = 43 then some 62
  else if n = 47 then some 63
  else none

/-- The bytes of groups of four digits; only the last group may end in one or two `=`. -/
def decode64 : Bytes → Option Bytes
  | [] => some []
  | [a, b, 61, 61] => do
    let (a, b) := (← digit64? a, ← digit64? b)
    if b % 16 = 0 then return [(a * 4 + b / 16).toUInt8] else none
  | [a, b, c, 61] => do
    let (a, b, c) := (← digit64? a, ← digit64? b, ← digit64? c)
    if c % 4 = 0 then
      return [(a * 4 + b / 16).toUInt8, (b % 16 * 16 + c / 4).toUInt8]
    else none
  | a :: b :: c :: d :: rest => do
    let (a, b, c, d) := (← digit64? a, ← digit64? b, ← digit64? c, ← digit64? d)
    let tail ← decode64 rest
    return (a * 4 + b / 16).toUInt8 :: (b % 16 * 16 + c / 4).toUInt8 ::
      (c % 4 * 64 + d).toUInt8 :: tail
  | _ => none

/-! ### Sections -/

/-- The lines of a text, without their line feeds. -/
def lines : Bytes → List Bytes
  | [] => []
  | b :: rest =>
    if b = 10 then [] :: lines rest
    else match lines rest with
      | [] => [[b]]
      | l :: ls => (b :: l) :: ls

/-- Whether a byte may stand behind the content of a line. -/
def isTrailing (b : UInt8) : Bool := b == 13 || b == 32

/-- A line without what may stand behind its content. -/
def trimmed (line : Bytes) : Bytes := (line.reverse.dropWhile isTrailing).reverse

/-- The text behind `front`, if the line starts with it. -/
def after? : Bytes → Bytes → Option Bytes
  | [], line => some line
  | _ :: _, [] => none
  | a :: front, b :: line => if a = b then after? front line else none

/-- Five dashes. -/
def dashes : Bytes := List.replicate 5 45

/-- The label text of a line that opens a section, given what stands behind `-----BEGIN `: the line
must end in five dashes, no more and no less. -/
def opened? (rest : Bytes) : Option Bytes :=
  let back := (trimmed rest).reverse
  if (back.takeWhile (· == 45)).length = 5 then some (back.drop 5).reverse else none

/-- The sections of the lines, given the section that is open and its digits so far; `none` when a
section is not opened, not closed or not filled as it should be. -/
def sectionsFrom : Option (Bytes × Bytes) → List Bytes → Option (List Section)
  | none, [] => some []
  | some _, [] => none
  | current, line :: rest =>
    match after? (utf8 "-----BEGIN ") line with
    | some title =>
      match opened? title with
      | none => none
      | some label => sectionsFrom (some (label, (current.map (·.2)).getD [])) rest
    | none =>
      match current with
      | none => sectionsFrom none rest
      | some (label, digits) =>
        match after? (utf8 "-----END " ++ label ++ dashes) line with
        | none => sectionsFrom (some (label, digits ++ trimmed line)) rest
        | some _ =>
          match Label.ofBytes? label with
          | none => sectionsFrom none rest
          | some l => do
            let content ← decode64 digits
            let tail ← sectionsFrom none rest
            return ⟨l, content⟩ :: tail

/-- The sections of a PEM file. -/
def sections? (file : Bytes) : Option (List Section) :=
  sectionsFrom none (lines file)

end Roaming.Tls
