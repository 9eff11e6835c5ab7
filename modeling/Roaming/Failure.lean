import Roaming.Json.Fault
import Roaming.Message.ResultCode

/-!
# Failures

Every way in which building a client, a request or the delivery of an answer can fail.
-/

set_option autoImplicit false
set_option relaxedAutoImplicit false

namespace Roaming

/-- Why an operation failed. -/
inductive Failure where
  /-- A payload could not be read. -/
  | serialization (refusal : Json.Refusal)
  /-- An answer was read and does not belong to the request. -/
  | invalidResponse (message : String)
  /-- A request could not be sent, or no listener be registered. -/
  | transport (message : String)
  /-- No answer was published in time. -/
  | asyncTimeout
  /-- The caller gave up before an answer came. -/
  | cancelled
  /-- The peer answered with a code other than success. -/
  | application (code : ResultCode) (description : String)
  /-- An answer could not be published. -/
  | publish (message : String)
  /-- A pushed answer was not acknowledged with status 200. -/
  | unexpectedStatus (status : Nat) (body : String)
  /-- Certificates or keys could not be loaded. -/
  | tls (message : String)
  /-- A required setting is absent. -/
  | missingConfig (message : String)
  /-- Settings contradict each other. -/
  | configConflict (message : String)
  /-- The client's mode does not allow the operation. -/
  | invalidMode (message : String)

namespace Failure

/-- The wording of a failure. -/
def message : Failure → String
  | .serialization r => "serialization error: " ++ r.message
  | .invalidResponse m => "invalid response: " ++ m
  | .transport m => "transport error: " ++ m
  | .asyncTimeout => "async timeout"
  | .cancelled => "request cancelled while awaiting answer"
  | .application code description =>
    "response error, code: " ++ code.text ++ ", description: " ++ description
  | .publish m => "publish answer error: " ++ m
  | .unexpectedStatus status body => s!"expected: 200, got: {status} (" ++ body ++ ")"
  | .tls m => "tls configuration error: " ++ m
  | .missingConfig m => "missing required configuration: " ++ m
  | .configConflict m => "configuration conflict: " ++ m
  | .invalidMode m => "invalid mode: " ++ m

/-- Whether the peer may still deliver an answer to the attempt: it was sent, or is being sent, and
the wait was given up. -/
def mayBePending : Failure → Bool
  | .asyncTimeout => true
  | .cancelled => true
  | _ => false

end Failure

end Roaming
