import Roaming.Client.Basic
import Roaming.Message.Payload

/-!
# Answers of a client

There are two ways to answer a peer: publishing the answer on the key on which the peer awaits it,
or pushing it to the peer's endpoint. Both carry the same bytes.
-/

set_option autoImplicit false
set_option relaxedAutoImplicit false

namespace Roaming

open Roaming.Text (Bytes)

/-- A payload and the key that it goes out on. -/
structure Publication where
  key : Key
  payload : Bytes
deriving DecidableEq, Repr

variable {P M : Type} {op : Operation}

/-- What publishing an answer puts on a medium. -/
def Publisher.publication (p : Publisher M) (a : Answer op) : Publication :=
  ⟨p.keys.key op.requestTag a.base.transactionID, a.encode⟩

/-- The failure of publishing, given why the medium did not take the payload. -/
def Failure.ofPublishing : Failure → Failure
  | .publish m => .publish m
  | .transport m => .publish m
  | f => .publish f.message

/-- What publishing on `key` comes to, given what the medium said. -/
def Publisher.conclude (key : Key) : Except Failure Unit → Except Failure Unit × Log
  | .ok () => (.ok (), [.debug s!"{key}: answer published"])
  | .error f => (.error f.ofPublishing, [.error s!"{key}: publish answer failed: {f.message}"])

namespace Client

/-- The publisher of a client, which only an async client has. -/
def publisherOrFail (c : Client P M) : Except Failure (Publisher M) :=
  match c.publisher with
  | some p => .ok p
  | none => .error (.invalidMode "answer publishing requires a pub/sub transport")

/-- What pushing an answer comes to, given what its POST returned: the peer must respond with status
200. -/
def concludePush (c : Client P M) (a : Answer op) :
    Except Failure Response → Except Failure Unit × Log
  | .error f => (.error f, [])
  | .ok r =>
    if r.status ≠ 200 then (.error (.unexpectedStatus r.status (Text.lossy r.body)), [])
    else
      (.ok (), [.debug (s!"answer for transaction {a.base.transactionID.toNat} pushed to " ++
        c.settings.receiver)])

end Client

end Roaming
