import Roaming.Duration
import Roaming.Listeners
import Roaming.Log

/-!
# Waiting for an answer

A request is posted and its answer awaited, in one of two ways. In sync mode the body of the
response is the answer (`Reply.poll`). In async mode a listener is armed first, and the answer is
what arrives in its inbox (`Watch.poll`); the response then only acknowledges the request.

Both waits look at everything that can end them in a fixed order of preference, each time that one
of these things may have changed. A poll is a function of what there is to see (`View`).
-/

set_option autoImplicit false
set_option relaxedAutoImplicit false

namespace Roaming

open Roaming.Text (Bytes)

/-- Where the answers to a client's requests come from. -/
inductive Mode where
  | sync
  | async
deriving DecidableEq, Repr

/-- The name of a mode. -/
def Mode.name : Mode → String
  | .sync => "Sync"
  | .async => "Async"

/-- What an async request does when its POST fails. -/
inductive SendPolicy where
  /-- End with the failure. -/
  | failFast
  /-- Go on waiting: the peer may have taken the request all the same. -/
  | awaitAnswer
deriving DecidableEq, Repr

/-- What a peer returned for a POST. -/
structure Response where
  status : Nat
  body : Bytes
deriving DecidableEq, Repr

/-- How a POST ended. -/
inductive Ending where
  | answered (response : Response)
  | failed (failure : Failure)
  | crashed (text : String)

/-- What a POST that a task of its own makes amounts to for whoever awaits the task: the response,
or a failure. The number of the task is not told. -/
def Ending.outcome : Ending → Except Failure Response
  | .answered r => .ok r
  | .failed f => .error f
  | .crashed text =>
    .error (.transport ("send task failed: task N panicked with message " ++ Text.quoted text))

/-- What a POST returns to whoever makes it in place. One that crashes takes its caller along, and
returns nothing. -/
def Ending.returned? : Ending → Option (Except Failure Response)
  | .answered r => some (.ok r)
  | .failed f => some (.error f)
  | .crashed _ => none

/-- What is to see for a request that waits. -/
structure View where
  /-- The inbox of its listener. -/
  inbox : Sight
  /-- How its POST ended, if it has. -/
  sent : Option Ending
  /-- Whether the time for the answer is over. -/
  expired : Bool
  /-- Whether the caller has given up. -/
  cancelled : Bool

/-! ### Async mode -/

/-- An armed exchange: the key it listens on, how long it waits, what it does when the POST fails,
and whether the end of the POST is still to be seen. -/
structure Watch where
  key : Key
  timeout : Duration
  policy : SendPolicy
  sendPending : Bool := true
deriving DecidableEq, Repr

/-- What one look at everything comes to. -/
inductive Turn where
  /-- The exchange is over. -/
  | finish (outcome : Except Failure Bytes)
  /-- The end of the POST was seen, and the wait goes on. -/
  | acknowledged
  /-- There is nothing to see. -/
  | idle

namespace Watch

/-- The answer of an exchange, with the line that reports it. -/
def deliver (w : Watch) (payload : Bytes) : Turn × Log :=
  (.finish (.ok payload), [.debug s!"{w.key}: answer delivered ({payload.length} bytes)"])

/-- The end of the POST: a failure ends the exchange unless the policy is to go on. -/
def acknowledge (w : Watch) (ending : Ending) : Turn × Log :=
  match ending.outcome, w.policy with
  | .ok r, _ => (.acknowledged, [.debug s!"{w.key}: request acknowledged with status {r.status}"])
  | .error f, .failFast => (.finish (.error f), [])
  | .error f, .awaitAnswer =>
    (.acknowledged, [.warn s!"{w.key}: send failed, still awaiting answer: {f.message}"])

/-- The end of the time, or else the caller's giving up. -/
def giveUp (w : Watch) (v : View) : Turn × Log :=
  if v.expired then
    (.finish (.error .asyncTimeout), [.debug s!"{w.key}: no answer within {w.timeout.render}"])
  else if v.cancelled then
    (.finish (.error .cancelled), [.debug s!"{w.key}: cancelled while awaiting answer"])
  else (.idle, [])

/-- One look at everything: the inbox, the end of the POST, the time, the caller. -/
def turn (w : Watch) (v : View) : Turn × Log :=
  match v.inbox with
  | .message payload => w.deliver payload
  | .closed =>
    (.finish (.error (.transport s!"{w.key}: answer channel closed before delivery")), [])
  | .empty =>
    match w.sendPending, v.sent with
    | true, some ending => w.acknowledge ending
    | _, _ => w.giveUp v

/-- Only a POST whose end is still to be seen is acknowledged. -/
theorem sendPending_of_turn {w : Watch} {v : View} {log : Log}
    (h : w.turn v = (.acknowledged, log)) : w.sendPending = true := by
  cases hp : w.sendPending with
  | true => rfl
  | false =>
    unfold turn at h
    rw [hp] at h
    split at h
    · simp [deliver] at h
    · simp at h
    · split at h
      · simp_all
      · unfold giveUp at h
        split at h
        · simp at h
        · split at h <;> simp at h

/-- Looks until the exchange is over or there is nothing to see. -/
def poll (w : Watch) (v : View) : Watch × Option (Except Failure Bytes) × Log :=
  match _h : w.turn v with
  | (.finish outcome, log) => (w, some outcome, log)
  | (.idle, log) => (w, none, log)
  | (.acknowledged, log) =>
    let (w', outcome, more) := poll { w with sendPending := false } v
    (w', outcome, log ++ more)
termination_by w.sendPending.toNat
decreasing_by
  have := sendPending_of_turn _h
  simp [this]

end Watch

/-! ### Sync mode -/

/-- The answer of a request in sync mode: the body of the response, whatever its status. A response
that is there wins over the caller's giving up. -/
def Reply.poll (key : Key) (v : View) : Option (Except Failure Bytes) × Log :=
  match v.sent with
  | some ending =>
    match ending.outcome with
    | .ok r =>
      (some (.ok r.body),
        [.debug s!"{key}: sync answer with status {r.status} ({r.body.length} bytes)"])
    | .error f => (some (.error f), [])
  | none =>
    if v.cancelled then
      (some (.error .cancelled),
        [.debug s!"{key}: cancelled, request left to complete in background"])
    else (none, [])

end Roaming
