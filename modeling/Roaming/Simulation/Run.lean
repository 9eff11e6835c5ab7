import Roaming.Simulation.Opening
import Roaming.Simulation.Session

/-!
# Runs

A run is a list of steps on transports to one broker. After each step everything that was sent goes
through. The clock moves only while the outcome of a request is awaited.
-/

set_option autoImplicit false
set_option relaxedAutoImplicit false

namespace Roaming.Simulation

open Roaming.Text (Bytes utf8)
open Roaming.Redis (CallId)

/-- A step of a run. -/
inductive RunStep where
  | subscribe (name : String) (transport : Nat) (key : Key)
  | publish (transport : Nat) (key : Key) (payload : Bytes)
  | close (transport : Nat)
  /-- Calls that start at the same time. -/
  | together (steps : List RunStep)
  /-- Steps one after the other, without letting everything go through in between. -/
  | batch (steps : List RunStep)
  | receive (name : String)
  | drop (name : String)
  /-- Another program publishes. -/
  | message (key : Key) (payload : Bytes)
  /-- Bytes to every listening connection. -/
  | raw (bytes : Bytes)
  /-- The broker hangs up every listening connection. -/
  | cut
  | forget (transport : Nat)
  | request (name : String) (client : Nat) (op : Option Operation) (payload : Bytes)
  | await (name : String)
  | answer (client : Nat) (op : Option Operation) (payload : Bytes)
  | unknown

/-- A run under way. -/
structure Run where
  world : World
  transports : List Transport
  actors : List Actor
  /-- The listeners of the run itself. -/
  handles : List (String × Subscription) := []
  /-- The last task of each name. -/
  works : List (String × WorkId) := []
  /-- How the tasks ended. -/
  outcomes : List (String × Outcome) := []

/-- A call that was started: its result, or what it waits for. -/
inductive Ticket where
  | result (r : StepResult)
  | call (station : Nat) (call : CallId)
  | subscription (name : String) (station : Nat) (call : CallId) (key : Key)
      (listener : ListenerId)
  | publication (station : Nat) (call : CallId) (key : Key)

namespace World

/-- The outcome of a call on a station, which is taken away. -/
def takeOutcome (i : Nat) (call : CallId) (w : World) : Option (Except Failure Unit) × World :=
  match w.stations[i]? with
  | none => (none, w)
  | some s =>
    match s.link.outcome? call with
    | none => (none, w)
    | some outcome =>
      (some outcome, { w with stations := w.stations.set i { s with link := s.link.fetched call } })

/-- Takes the oldest payload out of an inbox. -/
def takeFrom : Subscription → World → World
  | .hub _ id, w => { w with hub := w.hub.take id }
  | .puppet _ _ _, w => w
  | .link i _ id, w =>
    match w.stations[i]? with
    | none => w
    | some s =>
      let link := { s.link with listeners := s.link.listeners.take id }
      { w with stations := w.stations.set i { s with link } }

/-- The open listening connections. -/
def listening (w : World) : List Nat :=
  (w.stations.map (·.listenLine)).filter fun line =>
    match w.broker.connections[line]? with
    | some c => c.isOpen
    | none => false

/-- Hangs up the listening connection of a station. -/
def cut (i : Nat) (w : World) : World :=
  match w.stations[i]? with
  | none => w
  | some s =>
    wake (.agent i) { w with
      broker := w.broker.hangUp s.listenLine
      stations := w.stations.set i { s with isCut := true } }

/-- Lets time pass until a task has ended, alarm by alarm, `fuel` of them at most. -/
def awaitFrom : Nat → WorkId → World → World
  | 0, _, w => w
  | fuel + 1, id, w =>
    match w.task? id, w.alarms with
    | some _, alarm :: _ => awaitFrom fuel id (w.pass (max w.now alarm.due)).settle
    | _, _ => w

/-- Lets time pass until a task has ended. -/
def await (id : WorkId) (w : World) : World :=
  let w := w.settle
  w.awaitFrom (w.alarms.length + 2 * w.tasks.length + w.couriers.length + 1) id

end World

namespace Run

/-- The result that an outcome of a call amounts to. -/
def resultOf : Except Failure Unit → StepResult
  | .ok () => .done
  | .error f => .failed f

/-- Lets everything go through. -/
def settle (r : Run) : Run :=
  let world := r.world.settle
  { r with
    world := { world with ended := [] }
    outcomes := world.ended.foldl (fun l e => putName e.name e.outcome l) r.outcomes }

/-- Puts a listener under a name, and releases the one that it had. -/
def putHandle (name : String) (subscription : Subscription) (r : Run) : Run :=
  let old := r.handles.lookup name
  let r := { r with handles := putName name subscription r.handles }
  match old with
  | some old => { r with world := r.world.release old }
  | none => r

/-- Starts to publish an answer through a client. -/
def startAnswer {op : Operation} (actor : Actor) (a : Answer op) (r : Run) : Run × Ticket :=
  match actor.publisherOrFail with
  | .error f => (r, .result (.failed f))
  | .ok publisher =>
    match publisher.medium with
    | .link i =>
      match r.world.stations[i]? with
      | none => (r, .result (.obstacle .noTransport))
      | some s =>
        let pub := publisher.publication a
        ({ r with world := r.world.onLink i fun l => (l.publish pub.key pub.payload, []) },
          .publication i s.link.nextCall pub.key)
    | _ =>
      let (result, world) := r.world.answer actor a
      ({ r with world }, .result result)

/-- Starts a call. -/
def startCall (st : RunStep) (r : Run) : Run × Ticket :=
  let missing : Run × Ticket := (r, .result (.obstacle .noTransport))
  let transport (t : Nat) : Transport := (r.transports[t]?).getD .none
  match st with
  | .subscribe name t key =>
    match transport t with
    | .none => missing
    | .hub =>
      let id := r.world.hub.next
      let (hub, log) := r.world.hub.subscribe key
      (({ r with world := World.report log { r.world with hub } } : Run).putHandle name
        (.hub key id),
        .result .done)
    | .station i =>
      match r.world.stations[i]? with
      | none => missing
      | some s =>
        ({ r with world := r.world.onLink i fun l => (l.subscribe key, []) },
          .subscription name i s.link.nextCall key s.link.listeners.next)
  | .publish t key payload =>
    match transport t with
    | .none => missing
    | .hub => ({ r with world := r.world.publishOnHub key payload }, .result .done)
    | .station i =>
      match r.world.stations[i]? with
      | none => missing
      | some s =>
        ({ r with world := r.world.onLink i fun l => (l.publish key payload, []) },
          .call i s.link.nextCall)
  | .close t =>
    match transport t with
    | .none => missing
    | .hub => ({ r with world := r.world.closeHub }, .result .done)
    | .station i =>
      match r.world.stations[i]? with
      | none => missing
      | some s =>
        ({ r with world := r.world.onLink i fun l => (l.close, []) }, .call i s.link.nextCall)
  | .answer client op payload =>
    match op, r.actors[client]? with
    | none, _ => (r, .result (.obstacle .noOperation))
    | some _, none => (r, .result (.obstacle .noClient))
    | some op, some actor =>
      match Answer.decode op payload with
      | .error refusal => (r, .result (.refused refusal))
      | .ok a => r.startAnswer actor a
  | _ => (r, .result (.obstacle .unknownStep))

/-- The result of a call that has gone through. -/
def finishCall (ticket : Ticket) (r : Run) : Run × StepResult :=
  match ticket with
  | .result result => (r, result)
  | .call i call =>
    match r.world.takeOutcome i call with
    | (some outcome, world) => ({ r with world }, resultOf outcome)
    | (none, _) => (r, .silent)
  | .subscription name i call key listener =>
    match r.world.takeOutcome i call with
    | (some (.ok ()), world) =>
      (({ r with world } : Run).putHandle name (.link i key listener), .done)
    | (some (.error f), world) =>
      ({ r with world := world.release (.link i key listener) }, .failed f)
    | (none, _) => (r, .silent)
  | .publication i call key =>
    match r.world.takeOutcome i call with
    | (some outcome, world) =>
      let (result, log) := Publisher.conclude key outcome
      ({ r with world := world.report log }, resultOf result)
    | (none, _) => (r, .silent)

/-- Starts calls in order. -/
def startCalls : List RunStep → Run → Run × List Ticket
  | [], r => (r, [])
  | st :: rest, r =>
    let (r, ticket) := r.startCall st
    let (r, tickets) := startCalls rest r
    (r, ticket :: tickets)

/-- The results of calls that have gone through. -/
def finishCalls : List Ticket → Run → Run × List StepResult
  | [], r => (r, [])
  | ticket :: rest, r =>
    let (r, result) := r.finishCall ticket
    let (r, results) := finishCalls rest r
    (r, result :: results)

/-- Whether a client uses a station. -/
def isUsed (i : Nat) (r : Run) : Bool :=
  r.actors.any fun actor =>
    match actor.publisher with
    | some ⟨.link j, _⟩ => i == j
    | _ => false

/-- Forgets a transport; whether the broker has a connection left is seen when everything has gone
through. -/
def forget (t : Nat) (r : Run) : Run :=
  let r' := { r with transports := r.transports.set t .none }
  match r.transports[t]? with
  | some (.station i) =>
    if r.isUsed i then r'
    else { r' with world := r.world.onLink i fun l => ({ l with isHeld := false }, []) }
  | _ => r'

mutual
/-- Does one step; calls wait for their outcomes. -/
def step : RunStep → Run → Run × StepResult
  | .together steps, r =>
    let (r, tickets) := r.startCalls steps
    let (r, results) := r.settle.finishCalls tickets
    (r, .each results)
  | .batch steps, r =>
    let (r, results) := stepAll steps r
    (r, .each results)
  | .receive name, r =>
    match r.handles.lookup name with
    | none => (r, .obstacle .noHandle)
    | some subscription =>
      ({ r with world := r.world.takeFrom subscription }, .sight (r.world.sight subscription))
  | .drop name, r =>
    match r.handles.lookup name with
    | none => (r, .silent)
    | some subscription =>
      ({ r with
        world := r.world.release subscription
        handles := r.handles.filter (·.1 ≠ name) }, .silent)
  | .message key payload, r =>
    ({ r with world := r.world.publishByBroker key payload },
      .count (r.world.broker.subscribers (utf8 key)).length)
  | .raw bytes, r =>
    ({ r with world := r.world.bring (r.world.listening.map fun line => ⟨line, bytes⟩) }, .silent)
  | .cut, r =>
    let world := (List.range r.world.stations.length).foldl (fun w i => w.cut i) r.world
    ({ r with world }, .silent)
  | .forget t, r =>
    let r := (r.forget t).settle
    (r, .connected r.world.broker.isConnected)
  | .request name client op payload, r =>
    match op, r.actors[client]? with
    | none, _ => (r, .obstacle .noOperation)
    | some _, none => (r, .obstacle .noClient)
    | some op, some actor =>
      let job := match Request.decode op payload with
        | .ok q => Job.request actor op q
        | .error refusal => .refused refusal
      ({ r with
        world := r.world.start name job .never
        works := putName name r.world.nextId r.works
        outcomes := r.outcomes.filter (·.1 ≠ name) }, .silent)
  | .await name, r =>
    match r.works.lookup name with
    | none => (r, .obstacle .noTask)
    | some id =>
      let r := ({ r with world := r.world.await id } : Run).settle
      match r.outcomes.lookup name with
      | some outcome => (r, .ended outcome)
      | none => (r, .silent)
  | .unknown, r => (r, .obstacle .unknownStep)
  | st, r =>
    let (r, ticket) := r.startCall st
    r.settle.finishCall ticket

/-- Does steps one after the other. -/
def stepAll : List RunStep → Run → Run × List StepResult
  | [], r => (r, [])
  | first :: rest, r =>
    let (r, result) := step first r
    let (r, results) := stepAll rest r
    (r, result :: results)
end

/-- Whether a transport is open on which one can wait for everything to go through. -/
def isLive (r : Run) : Bool :=
  r.transports.any fun
    | .station i =>
      match r.world.stations[i]? with
      | some s => !s.link.isStopped
      | none => false
    | _ => false

/-- Does a step, lets everything go through if a transport is left to wait on, and reports. -/
def play (st : RunStep) (r : Run) : Run × StepResult × List Event :=
  let (r, result) := step st { r with world := { r.world with events := [] } }
  let r := if r.isLive then r.settle else r
  (r, result, r.world.events)

/-- Plays steps in order. -/
def playAll : List RunStep → Run → Run × List (StepResult × List Event)
  | [], r => (r, [])
  | st :: rest, r =>
    let (r, report) := r.play st
    let (r, reports) := playAll rest r
    (r, report :: reports)

end Run

/-! ### The start of a run -/

/-- Opens transports in order. -/
def openAll (site : Site) (isDirect : Bool) :
    List (Nat × String) → World → List (Except Failure Transport) × World
  | [], w => ([], w)
  | (index, uri) :: rest, w =>
    let (opened, w) := w.openTransport site isDirect index uri
    let (others, w) := openAll site isDirect rest w
    (opened :: others, w)

/-- A client of a run: how it is to be built, and the position of its transport. -/
structure RunClient where
  setup : ClientSetup
  transport : Nat

/-- The clients with the media that their transports are, or nothing if one of them is not open. -/
def placeClients (transports : List Transport) : List RunClient → Option (List ClientSetup)
  | [] => some []
  | c :: rest => do
    let medium ← match (transports[c.transport]?).getD .none with
      | .none => none
      | .hub => some Medium.hub
      | .station i => some fun _ => Medium.link i
    return { c.setup with medium := some medium } :: (← placeClients transports rest)

end Roaming.Simulation
