import Roaming.Text.Utf8
import Roaming.Json.Value
import Roaming.Json.Real

/-!
# Writing values

The compact form of a value: no blanks, members in the order given, texts with the short escapes
where there are any and four hexadecimal digits for the other controls, numbers that are not finite
as `null`.
-/

set_option autoImplicit false
set_option relaxedAutoImplicit false

namespace Roaming.Json

/-- One hexadecimal digit in lower case. -/
def hexDigit (n : Nat) : Char :=
  if n < 10 then Char.ofNat (48 + n) else Char.ofNat (87 + n)

/-- One character as it stands inside a text literal. -/
def escapeChar (c : Char) : List Char :=
  if c = '"' then ['\\', '"']
  else if c = '\\' then ['\\', '\\']
  else if c = '\n' then ['\\', 'n']
  else if c = '\r' then ['\\', 'r']
  else if c = '\t' then ['\\', 't']
  else if c.toNat = 8 then ['\\', 'b']
  else if c.toNat = 12 then ['\\', 'f']
  else if c.toNat < 32 then
    ['\\', 'u', '0', '0', hexDigit (c.toNat / 16), hexDigit (c.toNat % 16)]
  else [c]

/-- A text literal. -/
def printText (s : String) : String :=
  "\"" ++ String.ofList (s.toList.flatMap escapeChar) ++ "\""

/-- A floating point number, or `null` when it is not finite. -/
def printReal (x : Float) : String :=
  if x.isNaN || x.isInf then "null" else Real.render x

namespace Value

mutual

/-- The compact text of a value. -/
def print : Value → String
  | .null => "null"
  | .bool true => "true"
  | .bool false => "false"
  | .whole n => toString n.val
  | .real x => printReal x
  | .text s => printText s
  | .list items => "[" ++ printItems items ++ "]"
  | .object members => "\x7b" ++ printMembers members ++ "\x7d"

/-- The items of a list with commas between them. -/
def printItems : List Value → String
  | [] => ""
  | [v] => v.print
  | v :: rest => v.print ++ "," ++ printItems rest

/-- The members of an object with commas between them. -/
def printMembers : List (String × Value) → String
  | [] => ""
  | [(n, v)] => printText n ++ ":" ++ v.print
  | (n, v) :: rest => printText n ++ ":" ++ v.print ++ "," ++ printMembers rest

end

end Value

end Roaming.Json
