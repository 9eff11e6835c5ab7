import Roaming.Client.Answering
import Roaming.Client.Request
import Roaming.Url

/-!
# Scripts

What surrounds a client in a simulation: the peer that takes its POSTs, the medium that its answers
come over, the events that are recorded of both, and what the client is asked to do.
-/

set_option autoImplicit false
set_option relaxedAutoImplicit false

namespace Roaming.Simulation

open Roaming.Text (Bytes)

/-- What is recorded while a simulation runs. -/
inductive Event where
  | post (name : String) (body : Bytes)
  | subscribe (name : String) (key : Key)
  | publish (name : String) (key : Key) (body : Bytes)
  | release (name : String) (key : Key)
  /-- A command that arrived at the broker on one of its connections. -/
  | command (arguments : List Bytes) (connection : Nat)
deriving DecidableEq, Repr

/-- What a peer does about a POST: it waits, publishes, reports, and ends the POST. -/
structure Reply where
  delay : Nat := 0
  publications : List Publication := []
  log : Log := []
  ending : Ending := .answered ⟨200, []⟩

/-- Where a peer's publications go. -/
inductive Outlet where
  | hub
  | broker
deriving DecidableEq, Repr

/-- A peer, which reacts to each POST by its number and its body. -/
structure Peer where
  /-- The name under which POSTs are recorded, if they are. -/
  name : Option String
  /-- What is done about a POST, given how many there were before it, and its body. -/
  react : Nat → Bytes → Reply
  outlet : Outlet := .hub
  /-- The number of POSTs that the peer has had. -/
  posts : Nat := 0

/-- Replies to one POST after the other, of which the last is used again and again. -/
def Reply.inTurn (replies : List Reply) (n : Nat) (_body : Bytes) : Reply :=
  ((replies.drop n).head?.or replies.getLast?).getD {}

/-- The failure of a POST where no network is up: a URL that is none, or not of the web, is refused
before anything is sent. -/
def postFailure (server : String) : String :=
  match Url.parse server with
  | none => "http post error: builder error"
  | some url =>
    if url.scheme = "http" || url.scheme = "https" then
      s!"http post error: error sending request for url ({url.render})"
    else s!"http post error: builder error for url ({url.render})"

/-- The peer behind an endpoint where no network is up. -/
def Peer.unreachable (e : Endpoint) : Peer where
  name := none
  react :=
    let message := postFailure e.server
    fun _ _ => { log := [.error message], ending := .failed (.transport message) }

/-- A medium that does as it is told: it fails, or it takes every payload and hands out inboxes that
are already filled. -/
structure Puppet where
  failure : Option Failure := none
  inbox : List Bytes := []
  staysOpen : Bool := false
  /-- Whether the release of a listener is recorded. -/
  announces : Bool := false

/-- The medium of a client, with the name under which its use is recorded. -/
inductive Medium where
  | hub (name : String)
  | puppet (name : String) (script : Puppet)
  | link (index : Nat)

/-- A listener of a client on its medium. -/
inductive Subscription where
  | hub (key : Key) (id : ListenerId)
  | puppet (name : String) (key : Key) (script : Puppet)
  | link (index : Nat) (key : Key) (id : ListenerId)

/-- Where a listener is registered: on the hub or at a station, and its id there. -/
abbrev Seat := Option Nat × ListenerId

/-- The seat of a listener; a puppet has none. -/
def Subscription.seat? : Subscription → Option Seat
  | .hub _ id => some (none, id)
  | .puppet _ _ _ => none
  | .link i _ id => some (some i, id)

/-- The correlators of a simulation: peers are named by their position. -/
abbrev Caller := Correlator Nat Medium

/-- The clients of a simulation. -/
abbrev Actor := Client Nat Medium

/-- What a task is to do. -/
inductive Job where
  | exchange (caller : Caller) (key : Key) (body : Bytes)
  | request (actor : Actor) (op : Operation) (request : Request op)
  | push (actor : Actor) (op : Operation) (answer : Answer op)
  /-- Nothing: what it was to send could not be read. -/
  | refused (refusal : Json.Refusal)

/-- How a task ended. -/
inductive Outcome where
  | delivered (answer : Bytes)
  | accepted (op : Operation) (answer : Answer op)
  | pushed
  | failed (failure : Failure)
  | refused (refusal : Json.Refusal)

end Roaming.Simulation
