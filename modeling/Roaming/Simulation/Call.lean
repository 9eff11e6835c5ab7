import Roaming.Simulation.Run

/-!
# Single calls

A client that is built for one call, where no network is up.
-/

set_option autoImplicit false
set_option relaxedAutoImplicit false

namespace Roaming.Simulation

open Roaming.Text (Bytes)

/-- Posts bytes to a server. -/
def postTo (server : String) (body : Bytes) : Except Failure Response × Log :=
  match Endpoint.create [] { sender := "", receiver := "", server } with
  | .error f => (.error f, [])
  | .ok (endpoint, log) =>
    let (post, w) := World.movePost (.post 0) { peer := 0, body }
      { peers := [Peer.unreachable endpoint], log }
    let (post, w) := w.movePost (.post 0) post
    match post.ending?.bind (·.returned?) with
    | some returned => (returned, w.log)
    | none => (.error .asyncTimeout, w.log)

/-- Builds a client on a hub, does one step with it and waits for the end of what it started. -/
def callThrough (hub : Hub) (setup : ClientSetup) (st : Step) :
    Except Failure StepResult × Log × Hub :=
  match Cast.addClient [] .hub setup { world := { hub } } with
  | (.error f, log) => (.error f, log, hub)
  | (.ok cast, log) =>
    let s : Session := ⟨{ cast.world with log }, cast.actors, cast.callers, [], [], []⟩
    let id := s.world.nextId
    let (s, result) := s.step st
    let w := s.world.await id
    match result, w.ended with
    | .silent, ended :: _ => (.ok (.ended ended.outcome), w.log, w.hub)
    | result, _ => (.ok result, w.log, w.hub)

/-- The hub of a run after its transports and listeners are gone. -/
def Run.finalHub (r : Run) : Hub :=
  let hub := r.handles.foldl (fun (hub : Hub) handle =>
    match handle.2 with
    | .hub key id => hub.release key id
    | _ => hub) r.world.hub
  (List.range r.transports.length).foldl (fun (hub : Hub) i =>
    let key := World.barrierKey i
    (hub.registry.on key).foldl (fun (hub : Hub) id => hub.release key id) hub) hub

end Roaming.Simulation
