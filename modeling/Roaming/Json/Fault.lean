import Roaming.Text.Utf8
import Roaming.Text.Quoted
import Roaming.Json.Value
import Roaming.Json.Real

/-!
# Faults of a JSON text

`Cause` says what is wrong, `Fault` also where. A reader works on the bytes not yet read, so a place
is the number of bytes that were still unread there; a fault that a reader of fields noticed has no
place of its own until the enclosing list or object has been left (`Fault.settle`).
-/

set_option autoImplicit false
set_option relaxedAutoImplicit false

namespace Roaming.Json

open Roaming.Text (Bytes quoted)

/-- What a value was found to be. -/
inductive Found where
  | null
  | bool (b : Bool)
  | whole (n : Int)
  | real (x : Float)
  | text (s : String)
  | list
  | object

/-- The words for a value in a message. -/
def Found.describe : Found → String
  | .null => "null"
  | .bool b => s!"boolean `{b}`"
  | .whole n => s!"integer `{n}`"
  | .real x => "floating point `" ++ Real.render x ++ "`"
  | .text s => "string " ++ quoted s
  | .list => "sequence"
  | .object => "map"

/-- What a value is, without its parts. -/
def Value.found : Value → Found
  | .null => .null
  | .bool b => .bool b
  | .whole n => .whole n.val
  | .real x => .real x
  | .text s => .text s
  | .list _ => .list
  | .object _ => .object

/-- What was wanted in the place of a value. -/
inductive Wanted where
  | text
  | count
  | frequency
  | unit
  | variant
  | textOrMap
  | singleKey
  | record (name : String)
deriving DecidableEq

/-- The words for what was wanted. -/
def Wanted.describe : Wanted → String
  | .text => "a string"
  | .count => "u32"
  | .frequency => "f64"
  | .unit => "unit"
  | .variant => "variant identifier"
  | .textOrMap => "string or map"
  | .singleKey => "map with a single key"
  | .record name => "struct " ++ name

/-- What is wrong with a JSON text. -/
inductive Cause where
  | endInList
  | endInObject
  | endInText
  | endInValue
  | expectedColon
  | expectedListCommaOrEnd
  | expectedObjectCommaOrEnd
  | expectedIdent
  | expectedValue
  | invalidEscape
  | invalidNumber
  | numberOutOfRange
  | invalidCodePoint
  | controlCharacter
  | keyNotText
  | loneSurrogate
  | trailingComma
  | trailingCharacters
  | endOfHexEscape
  | tooDeep
  | wrongType (found : Found) (wanted : Wanted)
  | wrongValue (found : Found) (wanted : Wanted)
  | unknownVariant (name : String) (known : List String)
  | duplicateField (name : String)
  | missingField (name : String)
  | wrongLength (length : Nat) (wanted : Wanted) (elements : Nat)

/-- The names of an enumeration as they stand in a message. -/
def oneOf (names : List String) : String :=
  ", ".intercalate (names.map (fun n => "`" ++ n ++ "`"))

/-- The wording of a cause. -/
def Cause.message : Cause → String
  | .endInList => "EOF while parsing a list"
  | .endInObject => "EOF while parsing an object"
  | .endInText => "EOF while parsing a string"
  | .endInValue => "EOF while parsing a value"
  | .expectedColon => "expected `:`"
  | .expectedListCommaOrEnd => "expected `,` or `]`"
  | .expectedObjectCommaOrEnd => "expected `,` or `\x7d`"
  | .expectedIdent => "expected ident"
  | .expectedValue => "expected value"
  | .invalidEscape => "invalid escape"
  | .invalidNumber => "invalid number"
  | .numberOutOfRange => "number out of range"
  | .invalidCodePoint => "invalid unicode code point"
  | .controlCharacter => "control character (\\u0000-\\u001F) found while parsing a string"
  | .keyNotText => "key must be a string"
  | .loneSurrogate => "lone leading surrogate in hex escape"
  | .trailingComma => "trailing comma"
  | .trailingCharacters => "trailing characters"
  | .endOfHexEscape => "unexpected end of hex escape"
  | .tooDeep => "recursion limit exceeded"
  | .wrongType found wanted =>
    "invalid type: " ++ found.describe ++ ", expected " ++ wanted.describe
  | .wrongValue found wanted =>
    "invalid value: " ++ found.describe ++ ", expected " ++ wanted.describe
  | .unknownVariant name known =>
    "unknown variant `" ++ name ++ "`, expected one of " ++ oneOf known
  | .duplicateField name => "duplicate field `" ++ name ++ "`"
  | .missingField name => "missing field `" ++ name ++ "`"
  | .wrongLength length wanted elements =>
    s!"invalid length {length}, expected " ++ wanted.describe ++ s!" with {elements} elements"

/-- A cause with its place, given by the number of bytes left unread (`placed`), or noticed by a
reader of fields where `rest` was unread and still without a place (`loose`). -/
inductive Fault where
  | placed (cause : Cause) (left : Nat)
  | loose (cause : Cause) (rest : Bytes)

/-- A fault at the first unread byte. -/
def Fault.here (cause : Cause) (rest : Bytes) : Fault := .placed cause rest.length

/-- A fault of the next byte: its place is behind that byte, or at the end of the text. -/
def Fault.next (cause : Cause) (rest : Bytes) : Fault := .placed cause (rest.length - 1)

/-- What is wrong, wherever it is. -/
def Fault.cause : Fault → Cause
  | .placed c _ => c
  | .loose c _ => c

/-- Gives a loose fault the place reached after leaving the enclosing list or object. -/
def Fault.settle (leave : Bytes → Bytes) : Fault → Fault
  | .placed c n => .placed c n
  | .loose c rest => .placed c (leave rest).length

/-- A place in a text, as lines and columns count. -/
structure Place where
  line : Nat
  column : Nat
deriving DecidableEq

/-- The place with `left` bytes of the text behind it: the column counts the bytes since the last
line feed. -/
def Place.of (text : Bytes) (left : Nat) : Place :=
  let before := text.take (text.length - left)
  ⟨before.count 10 + 1, (before.reverse.takeWhile (· != 10)).length⟩

/-- Why a JSON text was refused, and where if that is known. -/
structure Refusal where
  cause : Cause
  place : Option Place

/-- The refusal that a fault in `text` amounts to. -/
def Fault.refusal (text : Bytes) : Fault → Refusal
  | .placed c left => ⟨c, some (Place.of text left)⟩
  | .loose c rest => ⟨c, some (Place.of text rest.length)⟩

/-- The wording of a refusal. -/
def Refusal.message (r : Refusal) : String :=
  match r.place with
  | none => r.cause.message
  | some p => r.cause.message ++ s!" at line {p.line} column {p.column}"

end Roaming.Json
