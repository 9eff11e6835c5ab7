import Roaming.Client.Basic
import Roaming.Message.Payload

/-!
# Requests of a client

A request is stamped with the identities of both ends before it is posted, and what comes back is an
answer only if it reads as one, belongs to the request and reports success.
-/

set_option autoImplicit false
set_option relaxedAutoImplicit false

namespace Roaming

open Roaming.Text (Bytes)

variable {P M : Type} {op : Operation}

/-- The request as it is posted: version, identities and tag are the client's. -/
def Settings.stamp (s : Settings) (r : Request op) : Request op :=
  { r with
    base := { r.base with
      protocolVersion := s.version
      senderID := s.sender
      receiverID := s.receiver
      messageType := some op.requestTag } }

namespace Client

/-- The key on which the answer to a request is awaited. -/
def requestKey (c : Client P M) (r : Request op) : Key :=
  c.keyFor op r.base.transactionID

/-- The bytes that are posted for a request. -/
def requestBody (c : Client P M) (r : Request op) : Bytes :=
  (c.settings.stamp r).encode

/-- The line that announces a request. -/
def requestLine (c : Client P M) (r : Request op) : LogLine :=
  .debug (s!"{c.requestKey r}: {op.requestTag.name} to {c.settings.receiver} " ++
    s!"({c.mode.name} mode)")

end Client

/-- The answer in the bytes that were handed to the request with the given id, which awaited it on
`key`: they must read as an answer, carry the request's id, name no other message type and report
success. -/
def Answer.accept (op : Operation) (key : Key) (id : TransactionId) (bytes : Bytes) :
    Except Failure (Answer op) :=
  match Answer.decode op bytes with
  | .error refusal => .error (.serialization refusal)
  | .ok answer =>
    if answer.base.transactionID ≠ id then
      .error (.invalidResponse
        s!"{key}: answer carries transaction id {answer.base.transactionID.toNat}")
    else
      match answer.base.messageType.filter (· ≠ op.answerTag) with
      | some tag =>
        .error (.invalidResponse s!"{key}: expected {op.answerTag.name}, got {tag.name}")
      | none =>
        if answer.result.code.isSuccess then .ok answer
        else .error (.application answer.result.code answer.result.description)

end Roaming
