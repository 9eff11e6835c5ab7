import Roaming.Json.Skip
import Roaming.Json.Printer
import Roaming.Message.Tag
import Roaming.Message.ResultCode

/-!
# Fields of a message

A field has a name and a kind. The kind fixes what the field holds (`Kind.Slot`), what it holds when
it is absent, how it is read from a text (`Kind.read`) or from a value that was read before
(`Kind.ofValue`), and how and when it is written.
-/

set_option autoImplicit false
set_option relaxedAutoImplicit false

namespace Roaming

open Roaming.Text (Bytes)
open Roaming.Json

/-- What a field holds. -/
inductive Kind where
  /-- A text, empty when absent and left out when empty. -/
  | label
  /-- The transaction id, 0 when absent and always written. -/
  | transaction
  /-- A message tag that may be absent. -/
  | tag
  /-- A result code, which must be present. -/
  | code
  /-- A text that may be absent. -/
  | text
  /-- A 32-bit number that may be absent. -/
  | count
  /-- A floating point number that may be absent. -/
  | frequency
  /-- Any value, owned by the peer, that may be absent. -/
  | value
deriving DecidableEq, Repr

namespace Kind

/-- The type of a field's content. -/
abbrev Slot : Kind → Type
  | .label => String
  | .transaction => UInt32
  | .tag => Option Tag
  | .code => ResultCode
  | .text => Option String
  | .count => Option UInt32
  | .frequency => Option Float
  | .value => Option Value

/-- The content of an absent field, `none` for a field that must be present. -/
def absent? : (k : Kind) → Option k.Slot
  | .label => some ""
  | .transaction => some 0
  | .tag => some none
  | .code => none
  | .text => some none
  | .count => some none
  | .frequency => some none
  | .value => some none

/-- Equality of contents; floats are compared as numbers. -/
def same : (k : Kind) → k.Slot → k.Slot → Bool
  | .label, a, b => a == b
  | .transaction, a, b => a == b
  | .tag, a, b => a == b
  | .code, a, b => a == b
  | .text, a, b => a == b
  | .count, a, b => a == b
  | .frequency, none, none => true
  | .frequency, some a, some b => a == b
  | .frequency, _, _ => false
  | .value, none, none => true
  | .value, some a, some b => a.same b
  | .value, _, _ => false

/-- The text of a content, or `none` when the field is left out. -/
def print? : (k : Kind) → k.Slot → Option String
  | .label, s => if s.isEmpty then none else some (printText s)
  | .transaction, n => some (toString n.toNat)
  | .tag, t => t.map (fun t => printText t.name)
  | .code, c => some (printText c.text)
  | .text, s => s.map printText
  | .count, n => n.map (fun n => toString n.toNat)
  | .frequency, x => x.map printReal
  | .value, v => v.map Value.print

end Kind

/-! ### Reading from a text -/

/-- The largest 32-bit number. -/
def maxCount : Nat := 4294967295

/-- The 32-bit number that a literal denotes. -/
def countOfNumber : Number → Except Cause UInt32
  | .whole n =>
    if 0 ≤ n.val ∧ n.val ≤ maxCount then .ok n.val.toNat.toUInt32
    else .error (.wrongValue (.whole n.val) .count)
  | .real x => .error (.wrongType (.real x) .count)

/-- The floating point number that a literal denotes; integers are rounded. -/
def realOfNumber : Number → Float
  | .whole n => if n.val < 0 then -(n.val.natAbs.toUInt64.toFloat) else n.val.toNat.toUInt64.toFloat
  | .real x => x

/-- The tag with the given name, or the fault of a name that no tag has. -/
def tagOfName (s : String) : Except Cause Tag :=
  match Tag.ofName? s with
  | some t => .ok t
  | none => .error (.unknownVariant s Tag.names)

/-- Passes a converted value on, or places its fault behind the literal that was read. -/
def orFault {α : Type} (r : Except Cause α) (rest : Bytes) : Except Fault (α × Bytes) :=
  match r with
  | .ok v => .ok (v, rest)
  | .error c => .error (.placed c rest.length)

/-- Refuses a value that is not of the wanted type: a scalar is read first, a list or an object is
refused where it starts. -/
def refuse {α : Type} (wanted : Wanted) (text : Bytes) : Except Fault α :=
  match skipBlanks text with
  | [] => .error (.next .endInValue [])
  | b :: rest =>
    if b = 110 then do
      let r ← readWord nullTail rest
      throw (.here (.wrongType .null wanted) r)
    else if b = 116 then do
      let r ← readWord trueTail rest
      throw (.here (.wrongType (.bool true) wanted) r)
    else if b = 102 then do
      let r ← readWord falseTail rest
      throw (.here (.wrongType (.bool false) wanted) r)
    else if startsNumber b then do
      let (n, r) ← readNumber (b :: rest)
      throw (.here (.wrongType n.found wanted) r)
    else if b = 34 then do
      let (s, r) ← readText rest
      throw (.here (.wrongType (.text s) wanted) r)
    else if b = 91 then .error (.here (.wrongType .list wanted) (b :: rest))
    else if b = 123 then .error (.here (.wrongType .object wanted) (b :: rest))
    else .error (.next .expectedValue (b :: rest))

/-- Reads a text and nothing else. -/
def readTextField (wanted : Wanted) (text : Bytes) : Except Fault (String × Bytes) :=
  match skipBlanks text with
  | 34 :: rest => readText rest
  | _ => refuse wanted text

/-- Reads a number and converts it. -/
def readNumberField {α : Type} (wanted : Wanted) (convert : Number → Except Cause α)
    (text : Bytes) : Except Fault (α × Bytes) :=
  match skipBlanks text with
  | [] => .error (.next .endInValue [])
  | b :: rest =>
    if startsNumber b then do
      let (n, r) ← readNumber (b :: rest)
      orFault (convert n) r
    else refuse wanted (b :: rest)

/-- Reads `null`, or a value. -/
def readOptional {α : Type} (read : Bytes → Except Fault (α × Bytes)) (text : Bytes) :
    Except Fault (Option α × Bytes) :=
  match skipBlanks text with
  | 110 :: rest => (readWord nullTail rest).map (fun r => (none, r))
  | rest => (read rest).map (fun p => (some p.1, p.2))

/-- Reads a tag: its name, or an object whose only member is called like the tag and is `null`. -/
def readTag (depth : Nat) (text : Bytes) : Except Fault (Tag × Bytes) :=
  match skipBlanks text with
  | [] => .error (.next .endInValue [])
  | 34 :: rest => do
    let (s, rest) ← readText rest
    orFault (tagOfName s) rest
  | 123 :: rest =>
    if depth ≤ 1 then .error (.next .tooDeep (123 :: rest))
    else do
      let (s, rest) ← readTextField .variant rest
      let (t, rest) ← orFault (tagOfName s) rest
      let rest ← readColon rest
      let rest ← match skipBlanks rest with
        | 110 :: rest => readWord nullTail rest
        | rest => refuse .unit rest
      match skipBlanks rest with
      | 125 :: rest => return (t, rest)
      | [] => throw (.here .endInObject [])
      | rest => throw (.here .expectedValue rest)
  | rest => .error (.next .expectedValue rest)

/-- Reads the content of a field. -/
def Kind.read (depth : Nat) : (k : Kind) → Bytes → Except Fault (k.Slot × Bytes)
  | .label => readTextField .text
  | .transaction => readNumberField .count countOfNumber
  | .tag => readOptional (readTag depth)
  | .code => fun text => (readTextField .text text).map (fun p => (.ofText p.1, p.2))
  | .text => readOptional (readTextField .text)
  | .count => readOptional (readNumberField .count countOfNumber)
  | .frequency => readOptional (readNumberField .frequency (fun n => .ok (realOfNumber n)))
  | .value => readOptional (fun text => (readValue depth text).map (fun p => (p.1.sorted, p.2)))

/-! ### Reading from a value -/

/-- A value that must be a text. -/
def textOfValue : Value → Except Cause String
  | .text s => .ok s
  | v => .error (.wrongType v.found .text)

/-- A value that must be a 32-bit number. -/
def countOfValue : Value → Except Cause UInt32
  | .whole n => countOfNumber (.whole n)
  | v => .error (.wrongType v.found .count)

/-- A value that must be a number. -/
def realOfValue : Value → Except Cause Float
  | .whole n => .ok (realOfNumber (.whole n))
  | .real x => .ok x
  | v => .error (.wrongType v.found .frequency)

/-- `null`, or a value. -/
def optionalOfValue {α : Type} (convert : Value → Except Cause α) : Value → Except Cause (Option α)
  | .null => .ok none
  | v => (convert v).map some

/-- A value that must name a tag: a text, or an object whose only member is called like the tag and
passes `unit`. -/
def tagOfValueWith (unit : Value → Bool) : Value → Except Cause Tag
  | .text s => tagOfName s
  | .object [(s, v)] => do
    let t ← tagOfName s
    if unit v then return t else throw (.wrongType v.found .unit)
  | .object _ => .error (.wrongValue .object .singleKey)
  | v => .error (.wrongType v.found .textOrMap)

/-- A value that must name a tag, inside a message: the member may hold `null` or an empty
object. -/
def tagOfValue : Value → Except Cause Tag :=
  tagOfValueWith (fun
    | .null => true
    | .object [] => true
    | _ => false)

/-- The content of a field, from a value that was read before. -/
def Kind.ofValue : (k : Kind) → Value → Except Cause k.Slot
  | .label => textOfValue
  | .transaction => countOfValue
  | .tag => optionalOfValue tagOfValue
  | .code => fun v => (textOfValue v).map .ofText
  | .text => optionalOfValue textOfValue
  | .count => optionalOfValue countOfValue
  | .frequency => optionalOfValue realOfValue
  | .value => optionalOfValue (fun v => .ok v.sorted)

/-- A field of a message. -/
structure Field where
  name : String
  kind : Kind
deriving DecidableEq, Repr

end Roaming
