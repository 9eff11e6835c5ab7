/-!
# Message tags and operations

Each of the five operations owns a request tag and an answer tag.
-/

set_option autoImplicit false
set_option relaxedAutoImplicit false

namespace Roaming

/-- The five operations between network servers. -/
inductive Operation where
  | prStart
  | prStop
  | xmitData
  | profile
  | homeNS
deriving DecidableEq, Repr

/-- All operations in their customary order. -/
def Operation.all : List Operation := [.prStart, .prStop, .xmitData, .profile, .homeNS]

/-- The name of an operation. -/
def Operation.name : Operation → String
  | .prStart => "PRStart"
  | .prStop => "PRStop"
  | .xmitData => "XmitData"
  | .profile => "Profile"
  | .homeNS => "HomeNS"

/-- The two directions of an exchange. -/
inductive Direction where
  | request
  | answer
deriving DecidableEq, Repr

/-- The tag that names a message's type. -/
structure Tag where
  operation : Operation
  direction : Direction
deriving DecidableEq, Repr

/-- The tag of an operation's requests. -/
def Operation.requestTag (op : Operation) : Tag := ⟨op, .request⟩

/-- The tag of an operation's answers. -/
def Operation.answerTag (op : Operation) : Tag := ⟨op, .answer⟩

namespace Tag

/-- The tag's name on the wire. -/
def name (t : Tag) : String :=
  t.operation.name ++ (match t.direction with | .request => "Req" | .answer => "Ans")

/-- All tags, each request before its answer. -/
def all : List Tag :=
  Operation.all.flatMap (fun op => [op.requestTag, op.answerTag])

/-- The names of all tags. -/
def names : List String := all.map name

/-- The tag with the given name. -/
def ofName? (s : String) : Option Tag :=
  all.find? (fun t => t.name == s)

end Tag

/-- The operation with the given name. -/
def Operation.ofName? (s : String) : Option Operation :=
  Operation.all.find? (fun op => op.name == s)

end Roaming
