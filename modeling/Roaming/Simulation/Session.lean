import Roaming.Simulation.Setup

/-!
# Sessions

A session is a list of steps on one hub and a clock that stands still unless a step moves it. After
each step everything runs until it waits; then the result of the step is reported, with what was
recorded and what ended meanwhile.
-/

set_option autoImplicit false
set_option relaxedAutoImplicit false

namespace Roaming.Simulation

open Roaming.Text (Bytes)

/-- How a request can be cancelled: not at all, from the start, or by a later step. -/
inductive CancelPlan where
  | never
  | ready
  | armed
deriving DecidableEq, Repr

/-- The state that a plan starts with. -/
def CancelPlan.initial : CancelPlan → Cancellation
  | .never => .never
  | .ready => .done
  | .armed => .armed

/-- A step of a session. -/
inductive Step where
  | request (name : String) (client : Nat) (op : Option Operation) (payload : Bytes)
      (plan : CancelPlan)
  | exchange (name : String) (correlator : Nat) (key : Key) (body : Bytes) (plan : CancelPlan)
  | push (name : String) (client : Nat) (op : Option Operation) (payload : Bytes)
  | answer (client : Nat) (op : Option Operation) (payload : Bytes)
  | cancel (name : String)
  | abort (name : String)
  | advance (millis : Nat)
  | publish (key : Key) (payload : Bytes)
  | close
  | count (key : Key)
  | subscribe (name : String) (key : Key)
  | receive (name : String)
  | drop (name : String)
  | profile (client : Nat) (id : TransactionId)
  | forgetHub
  | batch (steps : List Step)
  | unknown

/-- Why a step cannot be done. -/
inductive Obstacle where
  | noHub
  | noHandle
  | noOperation
  | noClient
  | noTransport
  | noTask
  | unknownStep
deriving DecidableEq, Repr

/-- The wording of an obstacle. -/
def Obstacle.message : Obstacle → String
  | .noHub => "no hub"
  | .noHandle => "handle"
  | .noOperation => "operation"
  | .noClient => "client"
  | .noTransport => "transport"
  | .noTask => "id"
  | .unknownStep => "unknown step"

/-- What became of an attempt to cancel. -/
inductive CancelResult where
  | sent
  | gone
  | absent
deriving DecidableEq, Repr

/-- The result of a step. -/
inductive StepResult where
  | silent
  | done
  | failed (failure : Failure)
  | refused (refusal : Json.Refusal)
  | cancelled (result : CancelResult)
  | sight (sight : Sight)
  | count (n : Nat)
  | profile (profile : Profile)
  | ended (outcome : Outcome)
  | connected (isConnected : Bool)
  | obstacle (obstacle : Obstacle)
  | each (results : List StepResult)

/-- What is reported after a step. -/
structure StepReport where
  result : StepResult
  events : List Event
  ended : List (String × Outcome)
  /-- The number of listeners on the hub, while it is held. -/
  listeners : Option Nat

/-- A session under way. -/
structure Session where
  world : World
  actors : List Actor
  callers : List Caller
  /-- The listeners of the session itself. -/
  handles : List (String × (Key × ListenerId)) := []
  /-- The tasks that a step can still cancel. -/
  cancels : List (String × WorkId) := []
  /-- The last task of each name. -/
  works : List (String × WorkId) := []

/-- A list of pairs with one more, in place of an older one of the same name. -/
def putName {α : Type} (name : String) (v : α) (l : List (String × α)) : List (String × α) :=
  l.filter (·.1 ≠ name) ++ [(name, v)]

/-- What publishing an answer through a client comes to, where the medium takes it at once or not at
all. -/
def World.answer {op : Operation} (actor : Actor) (answer : Answer op) (w : World) :
    StepResult × World :=
  match actor.publisherOrFail with
  | .error f => (.failed f, w)
  | .ok publisher =>
    let pub := publisher.publication answer
    let (taken, w) : Except Failure Unit × World :=
      match publisher.medium with
      | .hub name => (.ok (), (w.record (.publish name pub.key pub.payload)).publishOnHub pub.key
          pub.payload)
      | .puppet name script =>
        (match script.failure with
          | some f => .error f
          | none => .ok (),
          w.record (.publish name pub.key pub.payload))
      | .link _ => (.ok (), w)
    let (result, log) := Publisher.conclude pub.key taken
    (match result with
      | .ok () => .done
      | .error f => .failed f, w.report log)

namespace Session

/-- Starts a task under a name. -/
def start (name : String) (job : Job) (plan : CancelPlan) (s : Session) : Session :=
  let id := s.world.nextId
  { s with
    world := s.world.start name job plan.initial
    works := putName name id s.works
    cancels := if plan = .armed then putName name id s.cancels else s.cancels }

/-- Releases a listener of the session. -/
def releaseHandle (handle : Key × ListenerId) (s : Session) : Session :=
  { s with world := s.world.releaseOnHub handle.1 handle.2 }

/-- Does something with a client, if the hub is held and there are such a client and such an
operation. -/
def withClient (client : Nat) (op : Option Operation) (s : Session)
    (f : Actor → Operation → Session × StepResult) : Session × StepResult :=
  if !s.world.holdsHub then (s, .obstacle .noHub)
  else
    match op, s.actors[client]? with
    | none, _ => (s, .obstacle .noOperation)
    | some _, none => (s, .obstacle .noClient)
    | some op, some actor => f actor op

/-- Does something with the hub, if it is held. -/
def withHub (s : Session) (f : World → World × StepResult) : Session × StepResult :=
  if s.world.holdsHub then
    let (world, result) := f s.world
    ({ s with world }, result)
  else (s, .obstacle .noHub)

/-- Cancels the task of a name, once. -/
def cancel (name : String) (s : Session) : Session × StepResult :=
  match s.cancels.lookup name with
  | none => (s, .cancelled .absent)
  | some id =>
    let s := { s with cancels := s.cancels.filter (·.1 ≠ name) }
    match s.world.task? id with
    | none => (s, .cancelled .gone)
    | some _ => ({ s with world := s.world.cancel id }, .cancelled .sent)

/-- Does one step that is no batch. -/
def simpleStep (step : Step) (s : Session) : Session × StepResult :=
  match step with
  | .request name client op payload plan =>
    s.withClient client op fun actor op =>
      let job := match Request.decode op payload with
        | .ok r => Job.request actor op r
        | .error refusal => .refused refusal
      (s.start name job plan, .silent)
  | .push name client op payload =>
    s.withClient client op fun actor op =>
      let job := match Answer.decode op payload with
        | .ok a => Job.push actor op a
        | .error refusal => .refused refusal
      (s.start name job .never, .silent)
  | .answer client op payload =>
    s.withClient client op fun actor op =>
      match Answer.decode op payload with
      | .error refusal => (s, .refused refusal)
      | .ok a =>
        let (result, world) := s.world.answer actor a
        ({ s with world }, result)
  | .exchange name correlator key body plan =>
    if !s.world.holdsHub then (s, .obstacle .noHub)
    else
      match s.callers[correlator]? with
      | none => (s, .obstacle .noClient)
      | some caller => (s.start name (.exchange caller key body) plan, .silent)
  | .cancel name => s.cancel name
  | .abort name =>
    match s.works.lookup name with
    | none => (s, .silent)
    | some id => ({ s with world := s.world.drop id }, .silent)
  | .advance millis => ({ s with world := s.world.pass (s.world.now + millis) }, .silent)
  | .publish key payload => s.withHub fun w => (w.publishOnHub key payload, .done)
  | .close => s.withHub fun w => (w.closeHub, .done)
  | .count key => s.withHub fun w => (w, .count (w.hub.count key))
  | .subscribe name key =>
    if !s.world.holdsHub then (s, .obstacle .noHub)
    else
      let id := s.world.hub.next
      let (hub, log) := s.world.hub.subscribe key
      let old := s.handles.lookup name
      let s := { s with
        world := World.report log { s.world with hub }
        handles := putName name (key, id) s.handles }
      match old with
      | some handle => (s.releaseHandle handle, .silent)
      | none => (s, .silent)
  | .receive name =>
    match s.handles.lookup name with
    | none => (s, .obstacle .noHandle)
    | some (_, id) =>
      let sight := (s.world.hub.inbox id).sight (s.world.hasHub && s.world.hub.isOpen id)
      ({ s with world := { s.world with hub := s.world.hub.take id } }, .sight sight)
  | .drop name =>
    match s.handles.lookup name with
    | none => (s, .silent)
    | some handle =>
      (({ s with handles := s.handles.filter (·.1 ≠ name) } : Session).releaseHandle handle,
        .silent)
  | .profile client id =>
    s.withClient client (some .prStart) fun actor _ =>
      (s, .profile (Simulation.profile actor id))
  | .forgetHub =>
    ({ s with world := { s.world with holdsHub := false }, actors := [], callers := [] }, .silent)
  | .batch _ => (s, .silent)
  | .unknown => (s, .obstacle .unknownStep)

mutual
/-- Does one step; the steps of a batch are done one after the other. -/
def step : Step → Session → Session × StepResult
  | .batch steps, s =>
    let (s, results) := stepAll steps s
    (s, .each results)
  | other, s => s.simpleStep other

/-- Does steps one after the other. -/
def stepAll : List Step → Session → Session × List StepResult
  | [], s => (s, [])
  | first :: rest, s =>
    let (s, result) := step first s
    let (s, results) := stepAll rest s
    (s, result :: results)
end

/-- Does a step, lets everything run until it waits, and reports. -/
def play (st : Step) (s : Session) : Session × StepReport :=
  let (s, result) := step st { s with world := { s.world with events := [], ended := [] } }
  let world := s.world.settle
  ({ s with world }, {
    result
    events := world.events
    ended := world.ended.map fun e => (e.name, e.outcome)
    listeners := if world.holdsHub then some world.hub.total else none })

/-- Plays steps in order. -/
def playAll : List Step → Session → Session × List StepReport
  | [], s => (s, [])
  | st :: rest, s =>
    let (s, report) := s.play st
    let (s, reports) := playAll rest s
    (s, report :: reports)

/-- The names whose last tasks have not ended. -/
def pending (s : Session) : List String :=
  ((s.works.filter fun work =>
    match s.world.task? work.2 with
    | some t => !t.isDropped
    | none => false).map (·.1)).mergeSort (fun a b => decide (a ≤ b))

end Session

end Roaming.Simulation
