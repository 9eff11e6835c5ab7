import Roaming.Message.Body

/-!
# Requests and answers

A message is one object that holds the base fields and the body's fields side by side; an answer
also holds its result block under `Result`. The reader takes in all members first (`readEntries`),
the result block apart, and then picks the fields of the base and of the body from them.
-/

set_option autoImplicit false
set_option relaxedAutoImplicit false

namespace Roaming

open Roaming.Text (Bytes utf8)
open Roaming.Json

/-- A request of an operation. -/
structure Request (op : Operation) where
  base : Base
  body : Body op.requestTag

/-- An answer of an operation. -/
structure Answer (op : Operation) where
  base : Base
  result : Result
  body : Body op.answerTag

/-- What a message consists of before its fields are told apart: its result block, if it came with
one, and its other members in order. -/
structure Entries where
  result : Option Result
  members : List (String × Value)

/-- Reads the members of a message up to the closing brace. Where `withResult` holds, the member
`Result` is read as a result block, once. -/
def readEntries (withResult : Bool) (depth : Nat) :
    Nat → Bool → Option Result → Bytes → Except Fault (Entries × Bytes)
  | 0, _, _, rest => .error (.next .expectedValue rest)
  | fuel + 1, first, result, text => do
    match ← nextName first text with
    | .finish rest => return (⟨result, []⟩, rest)
    | .name rest =>
      let (name, rest) ← readText rest
      if withResult && name == "Result" then
        match result with
        | some _ => throw (.loose (.duplicateField name) rest)
        | none =>
          let (row, rest) ← Result.schema.read depth (← readColon rest)
          readEntries withResult depth fuel false (some (Result.ofRow row)) rest
      else
        let (v, rest) ← readValue depth (← readColon rest)
        let (entries, rest) ← readEntries withResult depth fuel false result rest
        return ({ entries with members := (name, v) :: entries.members }, rest)

/-- Reads a message: its entries, and what `pick` makes of them. -/
def readMessage {α : Type} (title : String) (withResult : Bool)
    (pick : Entries → Except Cause α) (text : Bytes) : Except Fault (α × Bytes) :=
  match skipBlanks text with
  | 123 :: rest =>
    enclosed leaveObject afterObject (do
      let (entries, rest) ← readEntries withResult (maxDepth - 1) (rounds rest) true none rest
      match pick entries with
      | .ok v => return (v, rest)
      | .error c => throw (.loose c rest))
  | _ => refuse (.record title) text

namespace Request

variable {op : Operation}

/-- The request that the entries hold. -/
def ofEntries (op : Operation) (e : Entries) : Except Cause (Request op) := do
  let base ← Base.schema.ofMembers e.members
  let body ← op.requestTag.body.ofMembers e.members
  return ⟨Base.ofRow base, body⟩

/-- Reads a request that is a whole document. -/
def decode (op : Operation) (text : Bytes) : Except Refusal (Request op) :=
  document (readMessage "RequestPayload" false (ofEntries op)) text

/-- The members of a request that are written, in order. -/
def members (r : Request op) : List (String × String) :=
  r.base.toRow.print ++ r.body.print

/-- The compact text of a request. -/
def print (r : Request op) : String :=
  printObject r.members

/-- The bytes of a request. -/
def encode (r : Request op) : Bytes :=
  utf8 r.print

/-- Equality of requests; floats are compared as numbers. -/
def same (a b : Request op) : Bool :=
  a.base.toRow.same b.base.toRow && a.body.same b.body

end Request

namespace Answer

variable {op : Operation}

/-- The answer that the entries hold. -/
def ofEntries (op : Operation) (e : Entries) : Except Cause (Answer op) := do
  let base ← Base.schema.ofMembers e.members
  let body ← op.answerTag.body.ofMembers e.members
  return ⟨Base.ofRow base, e.result.getD .missing, body⟩

/-- Reads an answer that is a whole document. -/
def decode (op : Operation) (text : Bytes) : Except Refusal (Answer op) :=
  document (readMessage "AnswerPayload" true (ofEntries op)) text

/-- The members of an answer that are written, in order. -/
def members (a : Answer op) : List (String × String) :=
  a.base.toRow.print ++ ("Result", Result.schema.print a.result.toRow) :: a.body.print

/-- The compact text of an answer. -/
def print (a : Answer op) : String :=
  printObject a.members

/-- The bytes of an answer. -/
def encode (a : Answer op) : Bytes :=
  utf8 a.print

/-- Equality of answers; floats are compared as numbers. -/
def same (a b : Answer op) : Bool :=
  a.base.toRow.same b.base.toRow && a.result.toRow.same b.result.toRow && a.body.same b.body

end Answer

end Roaming
