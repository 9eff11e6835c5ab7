import Roaming.Json.NumberLiteral
import Roaming.Json.TextLiteral

/-!
# Reading values

`readValue` reads one value of any kind, with at most 127 lists and objects around each other;
members stay in text order. `Value.parse` reads a whole document.

The functions carry the number of containers that may still be opened (`depth`) and a bound on the
rounds (`fuel`). Between two rounds at least one byte is passed, so twice the number of bytes is
enough rounds.
-/

set_option autoImplicit false
set_option relaxedAutoImplicit false

namespace Roaming.Json

open Roaming.Text (Bytes)

/-- Whether the byte is a blank between tokens. -/
def isBlank (b : UInt8) : Bool :=
  b == 32 || b == 10 || b == 9 || b == 13

/-- The text without the blanks at its front. -/
def skipBlanks : Bytes → Bytes
  | [] => []
  | b :: rest => if isBlank b then skipBlanks rest else b :: rest

/-- Reads the rest of a word such as `null`, behind its first letter. -/
def readWord : Bytes → Bytes → Except Fault Bytes
  | [], rest => .ok rest
  | _ :: _, [] => .error (.here .endInValue [])
  | w :: word, b :: rest => if b = w then readWord word rest else .error (.here .expectedIdent rest)

/-- The letters of `null` behind the first. -/
def nullTail : Bytes := [117, 108, 108]

/-- The letters of `true` behind the first. -/
def trueTail : Bytes := [114, 117, 101]

/-- The letters of `false` behind the first. -/
def falseTail : Bytes := [97, 108, 115, 101]

/-- How many lists and objects may stand around each other, plus one. -/
def maxDepth : Nat := 128

/-- Reads the colon behind a member's name. -/
def readColon (text : Bytes) : Except Fault Bytes :=
  match skipBlanks text with
  | [] => .error (.next .endInObject [])
  | 58 :: rest => .ok rest
  | rest => .error (.next .expectedColon rest)

/-- What stands before the next item of a list: its end (the closing bracket is still unread), or
an item. -/
inductive NextItem where
  | finish (rest : Bytes)
  | item (rest : Bytes)

/-- Looks for the next item of a list; only the first may stand without a comma before it. -/
def nextItem (first : Bool) (text : Bytes) : Except Fault NextItem :=
  match skipBlanks text with
  | [] => .error (.next .endInList [])
  | 93 :: rest => .ok (.finish (93 :: rest))
  | b :: rest =>
    if first then .ok (.item (b :: rest))
    else if b = 44 then
      match skipBlanks rest with
      | [] => .error (.next .endInValue [])
      | 93 :: rest => .error (.next .trailingComma (93 :: rest))
      | rest => .ok (.item rest)
    else .error (.next .expectedListCommaOrEnd (b :: rest))

/-- What stands before the next member of an object: its end (the closing brace is still unread),
or a name, whose opening quote has been read. -/
inductive NextName where
  | finish (rest : Bytes)
  | name (rest : Bytes)

/-- Looks for the next member's name; only the first may stand without a comma before it. -/
def nextName (first : Bool) (text : Bytes) : Except Fault NextName :=
  match skipBlanks text with
  | [] => .error (.next .endInObject [])
  | 125 :: rest => .ok (.finish (125 :: rest))
  | b :: rest =>
    if first then
      if b = 34 then .ok (.name rest) else .error (.next .keyNotText (b :: rest))
    else if b = 44 then
      match skipBlanks rest with
      | [] => .error (.next .endInValue [])
      | 34 :: rest => .ok (.name rest)
      | 125 :: rest => .error (.next .trailingComma (125 :: rest))
      | rest => .error (.next .keyNotText rest)
    else .error (.next .expectedObjectCommaOrEnd (b :: rest))

/-- Leaves a list: its closing bracket must come next. -/
def leaveList (text : Bytes) : Except Fault Bytes :=
  match skipBlanks text with
  | [] => .error (.next .endInList [])
  | 93 :: rest => .ok rest
  | 44 :: rest =>
    match skipBlanks rest with
    | 93 :: rest => .error (.next .trailingComma (93 :: rest))
    | rest => .error (.next .trailingCharacters rest)
  | rest => .error (.next .trailingCharacters rest)

/-- What is unread after an attempt to leave a list. -/
def afterList (text : Bytes) : Bytes :=
  match skipBlanks text with
  | 93 :: rest => rest
  | 44 :: rest => skipBlanks rest
  | rest => rest

/-- Leaves an object: its closing brace must come next. -/
def leaveObject (text : Bytes) : Except Fault Bytes :=
  match skipBlanks text with
  | [] => .error (.next .endInObject [])
  | 125 :: rest => .ok rest
  | 44 :: rest => .error (.next .trailingComma (44 :: rest))
  | rest => .error (.next .trailingCharacters rest)

/-- What is unread after an attempt to leave an object. -/
def afterObject (text : Bytes) : Bytes :=
  match skipBlanks text with
  | 125 :: rest => rest
  | rest => rest

/-- Only blanks may follow a document. -/
def finish (text : Bytes) : Except Fault Unit :=
  match skipBlanks text with
  | [] => .ok ()
  | rest => .error (.next .trailingCharacters rest)

mutual

/-- Reads a value. -/
def readValueWith : Nat → Nat → Bytes → Except Fault (Value × Bytes)
  | 0, _, rest => .error (.next .expectedValue rest)
  | fuel + 1, depth, text =>
    match skipBlanks text with
    | [] => .error (.next .endInValue [])
    | b :: rest =>
      if b = 110 then (readWord nullTail rest).map (fun r => (.null, r))
      else if b = 116 then (readWord trueTail rest).map (fun r => (.bool true, r))
      else if b = 102 then (readWord falseTail rest).map (fun r => (.bool false, r))
      else if startsNumber b then (readNumber (b :: rest)).map (fun p => (p.1.toValue, p.2))
      else if b = 34 then (readText rest).map (fun p => (.text p.1, p.2))
      else if b = 91 then
        if depth ≤ 1 then .error (.next .tooDeep (b :: rest))
        else match readItems fuel (depth - 1) true rest with
          | .error e => .error e
          | .ok (items, rest) => (leaveList rest).map (fun r => (.list items, r))
      else if b = 123 then
        if depth ≤ 1 then .error (.next .tooDeep (b :: rest))
        else match readMembers fuel (depth - 1) true rest with
          | .error e => .error e
          | .ok (members, rest) => (leaveObject rest).map (fun r => (.object members, r))
      else .error (.next .expectedValue (b :: rest))

/-- Reads the items of a list up to its closing bracket. -/
def readItems : Nat → Nat → Bool → Bytes → Except Fault (List Value × Bytes)
  | 0, _, _, rest => .error (.next .expectedValue rest)
  | fuel + 1, depth, first, text =>
    match nextItem first text with
    | .error e => .error e
    | .ok (.finish rest) => .ok ([], rest)
    | .ok (.item rest) =>
      match readValueWith fuel depth rest with
      | .error e => .error e
      | .ok (v, rest) => (readItems fuel depth false rest).map (fun p => (v :: p.1, p.2))

/-- Reads the members of an object up to its closing brace. -/
def readMembers : Nat → Nat → Bool → Bytes → Except Fault (List (String × Value) × Bytes)
  | 0, _, _, rest => .error (.next .expectedValue rest)
  | fuel + 1, depth, first, text =>
    match nextName first text with
    | .error e => .error e
    | .ok (.finish rest) => .ok ([], rest)
    | .ok (.name rest) =>
      match readText rest with
      | .error e => .error e
      | .ok (name, rest) =>
        match readColon rest with
        | .error e => .error e
        | .ok rest =>
          match readValueWith fuel depth rest with
          | .error e => .error e
          | .ok (v, rest) =>
            (readMembers fuel depth false rest).map (fun p => ((name, v) :: p.1, p.2))

end

/-- Enough rounds for any text of this length. -/
def rounds (text : Bytes) : Nat :=
  2 * text.length + 2

/-- Reads a value with at most `depth - 1` containers around each other. -/
def readValue (depth : Nat) (text : Bytes) : Except Fault (Value × Bytes) :=
  readValueWith (rounds text) depth text

/-- Runs a reader on a whole document. -/
def document {α : Type} (read : Bytes → Except Fault (α × Bytes)) (text : Bytes) :
    Except Refusal α :=
  match read text with
  | .error e => .error (e.refusal text)
  | .ok (v, rest) =>
    match finish rest with
    | .error e => .error (e.refusal text)
    | .ok () => .ok v

/-- Reads a whole document of any kind, members in text order. -/
def Value.parse (text : Bytes) : Except Refusal Value :=
  document (readValue maxDepth) text

end Roaming.Json
