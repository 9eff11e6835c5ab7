import Roaming.Simulation.Task

/-!
# Setting the stage

The clients and correlators of a simulation are built in order; the first that cannot be built ends
it.
-/

set_option autoImplicit false
set_option relaxedAutoImplicit false

namespace Roaming.Simulation

/-- How a client is to be built. -/
structure ClientSetup where
  /-- The settings, or why there are none. -/
  settings : Except Failure Settings
  /-- The replies of an injected peer. -/
  replies : Option (List Reply) := none
  /-- The medium, given the client's name. -/
  medium : Option (String → Medium) := none

/-- How a correlator is to be built. -/
structure CorrelatorSetup where
  replies : List Reply := []
  medium : Option (String → Medium) := none
  timeout : Duration := .ofMillis 1000
  policy : SendPolicy := .failFast

/-- A world with the clients and correlators in it. -/
structure Cast where
  world : World := {}
  actors : List Actor := []
  callers : List Caller := []

namespace Cast

/-- Builds one more client, among these files. -/
def addClient (files : Files) (outlet : Outlet) (setup : ClientSetup) (c : Cast) :
    Except Failure Cast × Log :=
  match setup.settings with
  | .error f => (.error f, [])
  | .ok settings =>
    let name := s!"c{c.actors.length}"
    let (built, log) := Client.build files settings Peer.unreachable
      (setup.replies.map fun replies => { name := some name, react := .inTurn replies, outlet })
      (setup.medium.map fun medium => medium name)
    match built with
    | .error f => (.error f, log)
    | .ok client =>
      let actor : Actor :=
        ⟨client.settings, ⟨c.world.peers.length, client.correlator.answers⟩, client.publisher⟩
      (.ok { c with
        world := { c.world with peers := c.world.peers ++ [client.correlator.peer] }
        actors := c.actors ++ [actor] }, log)

/-- Builds clients in order; a failure comes with the position of its client. -/
def addClients (files : Files) (outlet : Outlet) :
    List ClientSetup → Cast → Except (Failure × Nat) Cast × Log
  | [], c => (.ok c, [])
  | setup :: rest, c =>
    match c.addClient files outlet setup with
    | (.error f, log) => (.error (f, c.actors.length), log)
    | (.ok c, log) =>
      let (result, more) := addClients files outlet rest c
      (result, log ++ more)

/-- Builds one more correlator. -/
def addCorrelator (setup : CorrelatorSetup) (c : Cast) : Cast :=
  let name := s!"x{c.callers.length}"
  let caller : Caller :=
    ⟨c.world.peers.length,
      setup.medium.map fun medium => ⟨medium name, setup.timeout, setup.policy⟩⟩
  { c with
    world := { c.world with
      peers := c.world.peers ++ [{ name := some name, react := .inTurn setup.replies }] }
    callers := c.callers ++ [caller] }

end Cast

/-- What a client tells about itself. -/
structure Profile where
  sender : String
  receiver : String
  version : String
  mode : Mode
  isAsync : Bool
  keys : List Key
deriving DecidableEq, Repr

/-- What a client tells about itself, with the keys of one transaction. -/
def profile {P M : Type} (c : Client P M) (id : TransactionId) : Profile where
  sender := c.settings.sender
  receiver := c.settings.receiver
  version := c.settings.version
  mode := c.mode
  isAsync := c.isAsync
  keys := Operation.all.map fun op => c.keyFor op id

end Roaming.Simulation
