import Roaming.Client.Endpoint

/-!
# Clients

A client holds the identities of both ends, the way to post to its peer and, in async mode, the
medium on which answers are published. `Client.build` accepts settings that are complete and do not
contradict each other, and nothing else.
-/

set_option autoImplicit false
set_option relaxedAutoImplicit false

namespace Roaming

/-- How answers come over a medium: the medium, the longest wait, and what a failed POST means. -/
structure AnswerRoute (M : Type) where
  medium : M
  timeout : Duration
  policy : SendPolicy
deriving DecidableEq, Repr

/-- Posts requests to a peer of kind `P`, and awaits their answers. -/
structure Correlator (P M : Type) where
  peer : P
  answers : Option (AnswerRoute M)
deriving DecidableEq, Repr

/-- The mode of a correlator: async if it has a medium. -/
def Correlator.mode {P M : Type} (c : Correlator P M) : Mode :=
  if c.answers.isSome then .async else .sync

/-- Publishes answers on a medium, on keys of one key space. -/
structure Publisher (M : Type) where
  medium : M
  keys : KeySpace

/-- A client that was built. -/
structure Client (P M : Type) where
  settings : Settings
  correlator : Correlator P M
  publisher : Option (Publisher M)

namespace Client

variable {P M : Type}

/-- The mode of a client. -/
def mode (c : Client P M) : Mode := c.correlator.mode

/-- Whether answers come over a medium. -/
def isAsync (c : Client P M) : Bool := c.mode == .async

/-- The key of a transaction of an operation. -/
def keyFor (c : Client P M) (op : Operation) (id : TransactionId) : Key :=
  c.settings.keys.key op.requestTag id

/-- Makes the way to the peer: the one that was handed in, or the endpoint that is described. -/
def choosePeer (files : Files) (s : Settings) (ofEndpoint : Endpoint → P) :
    Option P → Except Failure (P × Log)
  | some peer =>
    if s.describesEndpoint then
      .error (.configConflict
        "server and TLS settings cannot be combined with an injected http transport")
    else .ok (peer, [])
  | none => (Endpoint.create files s).map fun p => (ofEndpoint p.1, p.2)

/-- Pairs the medium with the longest wait: both are there, or none is. -/
def chooseAnswers (s : Settings) : Option M → Except Failure (Option (AnswerRoute M))
  | some medium =>
    match s.timeout with
    | some timeout =>
      if timeout.nanos = 0 then .error (.configConflict "async_timeout must be greater than zero")
      else .ok (some ⟨medium, timeout, s.policy⟩)
    | none => .error (.missingConfig "async_timeout")
  | none =>
    match s.timeout with
    | some _ => .error (.configConflict "async_timeout set without a pub/sub transport")
    | none => .ok none

/-- The line that reports a client. -/
def builtLine (c : Client P M) : LogLine :=
  .info (s!"backend client {c.settings.sender} -> {c.settings.receiver} ({c.mode.name} mode, " ++
    s!"keys under {c.settings.keys.space}:{c.settings.keys.component})")

/-- Builds a client: first the identities are checked, then the way to the peer, then the way of the
answers. The log comes with a failure, too. -/
def build (files : Files) (s : Settings) (ofEndpoint : Endpoint → P) (peer : Option P)
    (medium : Option M) : Except Failure (Client P M) × Log :=
  if s.sender = "" then (.error (.missingConfig "sender_id"), [])
  else if s.receiver = "" then (.error (.missingConfig "receiver_id"), [])
  else
    match choosePeer files s ofEndpoint peer with
    | .error f => (.error f, [])
    | .ok (peer, log) =>
      match chooseAnswers s medium with
      | .error f => (.error f, log)
      | .ok answers =>
        let client : Client P M :=
          ⟨s, ⟨peer, answers⟩, answers.map fun a => ⟨a.medium, s.keys⟩⟩
        (.ok client, log ++ [client.builtLine])

end Client

end Roaming
