import Roaming.Simulation.Session

/-!
# A demonstration

Two network servers roam over one hub. The visited one asks for the home network of a device; the
serving one acknowledges the request at once and publishes its answer a little later.
-/

set_option autoImplicit false
set_option relaxedAutoImplicit false

namespace Roaming.Demonstration

open Roaming.Simulation

/-- The settings of a server that posts to the other one. -/
def settings (sender receiver : String) : Settings :=
  { sender, receiver, timeout := some (.ofMillis 1000) }

/-- The two servers: the visited one, whose requests are acknowledged, and the serving one, which
sends none. -/
def servers : List ClientSetup :=
  [{ settings := .ok (settings "000001" "000002"), replies := some [{}], medium := some .hub },
    { settings := .ok (settings "000002" "000001")
      replies := some [{ ending := .answered ⟨503, []⟩ }]
      medium := some .hub }]

/-- The request of the visited server. -/
def request (id : TransactionId) : Request .homeNS :=
  ⟨{ transactionID := id }, (some "0102030405060708", ())⟩

/-- The answer of the serving server. -/
def answer (id : TransactionId) : Answer .homeNS :=
  ⟨{ transactionID := id }, {}, (some "C00053", ())⟩

/-- What the serving server says about the bytes of a request. -/
def servingLine (body : Text.Bytes) : Option String :=
  match Request.decode .homeNS body with
  | .ok r =>
    let tag := (r.base.messageType.map Tag.name).getD "?"
    some s!"serving: {tag} from {r.base.senderID} (tx {r.base.transactionID.toNat})"
  | .error _ => none

/-- What the serving server says about what was recorded. -/
def servingLines (events : List Event) : List String :=
  events.filterMap fun
    | .post _ body => servingLine body
    | _ => none

/-- What the visited server says about how its request ended. -/
def visitedLines (ended : List (String × Outcome)) : Except Failure (List String) :=
  ended.mapM fun
    | (_, .accepted .homeNS a) =>
      .ok ("visited: home network of device is " ++ a.body.1.getD "unknown")
    | (_, .failed f) => .error f
    | _ => .error .asyncTimeout

/-- The lines of the demonstration, for a request with the given transaction id. -/
def lines (id : TransactionId) : Except Failure (List String) := do
  let cast ← ((Cast.addClients [] .hub servers {}).1).mapError (·.1)
  match cast.actors with
  | actor :: _ =>
    let waiting := "visited: waiting on " ++ actor.keyFor .homeNS id
    let s : Session := ⟨cast.world, cast.actors, cast.callers, [], [], []⟩
    let (s, asked) := s.play (.request "ask" 0 (some .homeNS) (request id).encode .never)
    let (s, _) := s.play (.advance 200)
    let (_, answered) := s.play (.answer 1 (some .homeNS) (answer id).encode)
    return waiting :: servingLines asked.events ++ (← visitedLines answered.ended)
  | [] => throw (.missingConfig "client")

end Roaming.Demonstration
