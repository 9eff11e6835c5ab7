import Roaming.Failure
import Roaming.Log
import Roaming.Text.Quoted

/-!
# Addresses of media

The URI of a medium tells by its scheme what kind of medium it is: the hub of this process, or a
Redis broker.
-/

set_option autoImplicit false
set_option relaxedAutoImplicit false

namespace Roaming

/-- Where a medium is found. -/
inductive Address where
  | processHub
  | redis (uri : String)
deriving DecidableEq, Repr

namespace Address

/-- The characters before the first `://`, if there is one. -/
def beforeMark : List Char → Option (List Char)
  | [] => none
  | c :: rest =>
    if [':', '/', '/'].isPrefixOf (c :: rest) then some []
    else (beforeMark rest).map (c :: ·)

/-- The scheme of a URI: what stands before the first `://`. -/
def scheme? (uri : String) : Option String :=
  (beforeMark uri.toList).map String.ofList

/-- A scheme as it stands in the log. -/
def describeScheme : Option String → String
  | none => "None"
  | some s => "Some(" ++ Text.quoted s ++ ")"

/-- The line that announces the opening of a medium. -/
def openingLine (uri : String) : LogLine :=
  .debug s!"create pub/sub for {uri} (scheme {describeScheme (scheme? uri)})"

/-- The address that a URI denotes. -/
def ofUri (uri : String) : Except Failure Address :=
  match scheme? uri with
  | some "memory" => .ok .processHub
  | some "redis" => .ok (.redis uri)
  | some "rediss" => .ok (.redis uri)
  | _ =>
    .error (.transport
      s!"unrecognized pub/sub URI: {uri}, valid schemes: memory, redis, rediss")

/-- The refusal of a Redis address where Redis is not supported. -/
def redisDisabled : Failure := .transport "transport_redis feature is not enabled"

end Address

end Roaming
