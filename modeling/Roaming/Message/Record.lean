import Roaming.Message.Field

/-!
# Records

A schema is a title and a list of fields; a row holds the content of each field. There is one reader
for all schemas, in two forms: `Schema.read` takes a row from a text, field by field as the text
comes; `Schema.ofMembers` takes it from members that were read before. Both collect a draft, in
which a field is filled at most once, and end by putting in what is absent.
-/

set_option autoImplicit false
set_option relaxedAutoImplicit false

namespace Roaming

open Roaming.Text (Bytes)
open Roaming.Json

/-- A record type: its title in messages and its fields in order. -/
structure Schema where
  title : String
  fields : List Field

/-- The contents of the fields, in order. -/
def Row : List Field → Type
  | [] => Unit
  | f :: fs => f.kind.Slot × Row fs

/-- The contents of the fields seen so far. -/
def Draft : List Field → Type
  | [] => Unit
  | f :: fs => Option f.kind.Slot × Draft fs

namespace Draft

/-- No field seen yet. -/
def empty : (fs : List Field) → Draft fs
  | [] => ()
  | _ :: fs => (none, empty fs)

/-- Fills the field called `name` with what `read` gives for its kind; `none` when there is no such
field, and the fault `repeated` when it was filled before. -/
def fill? {ε β : Type} (name : String) (repeated : ε)
    (read : (k : Kind) → Except ε (k.Slot × β)) :
    (fs : List Field) → Draft fs → Except ε (Option (Draft fs × β))
  | [], () => .ok none
  | f :: fs, (slot, rest) =>
    if f.name = name then
      match slot with
      | some _ => .error repeated
      | none => (read f.kind).map (fun p => some ((some p.1, rest), p.2))
    else (fill? name repeated read fs rest).map (fun r => r.map (fun p => ((slot, p.1), p.2)))

/-- The row of a draft: an absent field has its kind's content for that, or is missing. -/
def complete {fs : List Field} (d : Draft fs) : Except Cause (Row fs) :=
  match fs, d with
  | [], () => .ok ()
  | f :: _, (slot, rest) => do
    let s ← match slot with
      | some s => pure s
      | none =>
        match f.kind.absent? with
        | some s => pure s
        | none => throw (.missingField f.name)
    return (s, ← rest.complete)

end Draft

namespace Row

/-- The row of a record none of whose fields must be present and none is. -/
def absent? : (fs : List Field) → Option (Row fs)
  | [] => some ()
  | f :: fs => do return (← f.kind.absent?, ← absent? fs)

/-- Equality of rows, field by field. -/
def same {fs : List Field} (r s : Row fs) : Bool :=
  match fs, r, s with
  | [], (), () => true
  | f :: _, (a, r), (b, s) => f.kind.same a b && r.same s

/-- The names and texts of the fields that are written, in order. -/
def print {fs : List Field} (r : Row fs) : List (String × String) :=
  match fs, r with
  | [], () => []
  | f :: _, (s, rest) =>
    match f.kind.print? s with
    | some t => (f.name, t) :: rest.print
    | none => rest.print

/-- Puts another content into the field called `name`, if `content` has one for its kind. -/
def put (name : String) (content : (k : Kind) → Option k.Slot) {fs : List Field} (r : Row fs) :
    Row fs :=
  match fs, r with
  | [], () => ()
  | f :: _, (s, rest) =>
    if f.name = name then ((content f.kind).getD s, rest) else (s, rest.put name content)

end Row

/-- The text of an object with the given names and texts of values. -/
def printObject (members : List (String × String)) : String :=
  "\x7b" ++ ",".intercalate (members.map (fun m => printText m.1 ++ ":" ++ m.2)) ++ "\x7d"

/-! ### From a text -/

/-- Reads the members of an object into a draft, up to the closing brace. A name that no field has
is passed over with its value. -/
def readFields (fs : List Field) (depth : Nat) :
    Nat → Bool → Draft fs → Bytes → Except Fault (Draft fs × Bytes)
  | 0, _, _, rest => .error (.next .expectedValue rest)
  | fuel + 1, first, draft, text => do
    match ← nextName first text with
    | .finish rest => return (draft, rest)
    | .name rest =>
      let (name, rest) ← readText rest
      let filled ← Draft.fill? name (.loose (.duplicateField name) rest)
        (fun k => do k.read depth (← readColon rest)) fs draft
      match filled with
      | some (draft, rest) => readFields fs depth fuel false draft rest
      | none =>
        let rest ← skipValue (← readColon rest)
        readFields fs depth fuel false draft rest

/-- Reads the items of a list into the fields in order; `index` counts those before. Fields for
which there is no item are absent. -/
def readPositions (title : String) (count depth : Nat) :
    (fs : List Field) → Nat → Bool → Bytes → Except Fault (Row fs × Bytes)
  | [], _, _, text => .ok ((), text)
  | f :: fs, index, first, text => do
    match ← nextItem first text with
    | .finish rest =>
      match f.kind.absent? with
      | none =>
        throw (.loose (.wrongLength index (.record title) count) rest)
      | some s =>
        let (row, rest) ← readPositions title count depth fs (index + 1) first rest
        return ((s, row), rest)
    | .item rest =>
      let (s, rest) ← f.kind.read depth rest
      let (row, rest) ← readPositions title count depth fs (index + 1) false rest
      return ((s, row), rest)

/-- Runs a reader inside a container and leaves the container behind it; a fault without a place
gets the one reached by then. -/
def enclosed {α : Type} (leave : Bytes → Except Fault Bytes) (after : Bytes → Bytes)
    (r : Except Fault (α × Bytes)) : Except Fault (α × Bytes) :=
  match r with
  | .error e => .error (e.settle after)
  | .ok (v, rest) => (leave rest).map (fun rest => (v, rest))

namespace Schema

/-- Reads a record: an object with the fields as members, or a list with their contents in order. -/
def read (s : Schema) (depth : Nat) (text : Bytes) : Except Fault (Row s.fields × Bytes) :=
  match skipBlanks text with
  | 91 :: rest =>
    if depth ≤ 1 then .error (.next .tooDeep (91 :: rest))
    else enclosed leaveList afterList
      (readPositions s.title s.fields.length (depth - 1) s.fields 0 true rest)
  | 123 :: rest =>
    if depth ≤ 1 then .error (.next .tooDeep (123 :: rest))
    else enclosed leaveObject afterObject (do
      let (draft, rest) ←
        readFields s.fields (depth - 1) (rounds rest) true (Draft.empty s.fields) rest
      match draft.complete with
      | .ok row => return (row, rest)
      | .error c => throw (.loose c rest))
  | _ => refuse (.record s.title) text

/-- Takes a record from members that were read before, in their order; members with other names are
left alone. -/
def ofMembers (s : Schema) (members : List (String × Value)) : Except Cause (Row s.fields) := do
  let draft ← members.foldlM (fun (draft : Draft s.fields) m => do
    let filled ← Draft.fill? m.1 (.duplicateField m.1)
      (fun k => (k.ofValue m.2).map (fun s => (s, ()))) s.fields draft
    return match filled with
      | some (draft, ()) => draft
      | none => draft) (Draft.empty s.fields)
  draft.complete

/-- Reads a record that is a whole document. -/
def parse (s : Schema) (text : Bytes) : Except Refusal (Row s.fields) :=
  document (s.read maxDepth) text

/-- The compact text of a record. -/
def print (s : Schema) (row : Row s.fields) : String :=
  printObject (row.print)

end Schema

end Roaming
