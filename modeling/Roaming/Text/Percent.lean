import Roaming.Text.Digits
import Roaming.Text.Utf8
import Roaming.Text.Quoted

/-!
# Percent escapes

In a URL, bytes that may not stand for themselves are written as a percent sign and two hexadecimal
digits.
-/

set_option autoImplicit false
set_option relaxedAutoImplicit false

namespace Roaming.Text

/-- The bytes of a text with its escapes resolved; a percent sign that starts no escape stays. -/
def unescaped : List Char → Bytes
  | '%' :: a :: b :: rest =>
    match hexDigit? a, hexDigit? b with
    | some x, some y => (x * 16 + y).toUInt8 :: unescaped rest
    | _, _ => utf8 "%" ++ unescaped (a :: b :: rest)
  | c :: rest => utf8 (String.singleton c) ++ unescaped rest
  | [] => []

/-- An escape of one byte. -/
def escape (b : UInt8) : String :=
  let digits := (Nat.toDigits 16 b.toNat).map Char.toUpper
  "%" ++ String.ofList (List.replicate (2 - digits.length) '0' ++ digits)

/-- A text in which the characters that must not stand for themselves are escaped. -/
def escaped (mustEscape : Char → Bool) (s : List Char) : String :=
  String.join (s.map fun c =>
    if mustEscape c then String.join ((utf8 (String.singleton c)).map escape)
    else String.singleton c)

/-- The names and values of a query: a plus sign stands for a blank, and ill-formed bytes are
replaced. -/
def queryPairs (query : String) : List (String × String) :=
  ((query.splitOn "&").filter (· ≠ "")).map fun part =>
    let chars := part.toList.map fun c => if c = '+' then ' ' else c
    let value := (chars.dropWhile (· ≠ '=')).drop 1
    (lossy (unescaped (chars.takeWhile (· ≠ '='))), lossy (unescaped value))

end Roaming.Text
