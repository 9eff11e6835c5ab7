import Roaming.Text.Plain

/-!
# Quoted texts in messages

A text inside a message stands between double quotes; a quote, a backslash and the common controls
are written with a backslash and a letter, other characters that do not show as themselves by their
number.
-/

set_option autoImplicit false
set_option relaxedAutoImplicit false

namespace Roaming.Text

/-- The lower-case hexadecimal digits of a number. -/
def hex (n : Nat) : String :=
  String.ofList (Nat.toDigits 16 n)

/-- One character as it stands between double quotes. -/
def quotedChar (c : Char) : String :=
  if c = '"' then "\\\""
  else if c = '\\' then "\\\\"
  else if c = '\n' then "\\n"
  else if c = '\r' then "\\r"
  else if c = '\t' then "\\t"
  else if c.toNat = 0 then "\\0"
  else if isPlain c then String.singleton c
  else "\\u\x7b" ++ hex c.toNat ++ "\x7d"

/-- A text between double quotes. -/
def quoted (s : String) : String :=
  "\"" ++ String.join (s.toList.map quotedChar) ++ "\""

end Roaming.Text
