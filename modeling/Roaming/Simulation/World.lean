import Roaming.Medium.Hub
import Roaming.Simulation.Broker
import Roaming.Simulation.Script

/-!
# The world of a simulation

A world holds a hub, a broker with its stations, the peers, and the tasks and POSTs that are under
way. Tasks, POSTs and agents that have something to look at stand in a queue and are run one after
the other, in the order in which they were woken. Time stands still while they run; an alarm wakes
its owner when the time has come.
-/

set_option autoImplicit false
set_option relaxedAutoImplicit false

namespace Roaming.Simulation

open Roaming.Text (Bytes utf8)
open Roaming.Redis (CallId)

/-- Numbers the tasks and POSTs of a world. -/
abbrev WorkId := Nat

/-- What can be run. -/
inductive Runnable where
  | task (id : WorkId)
  | post (id : WorkId)
  | agent (station : Nat)
deriving DecidableEq, Repr

/-- How far a POST has come. -/
inductive PostStage where
  | unsent
  /-- The peer has it, and carries out its reply when the time has come. -/
  | underway (due : Nat) (reply : Reply)
  | ended (ending : Ending)

/-- A POST: the peer that it goes to, its body, and how far it has come. -/
structure Post where
  peer : Nat
  body : Bytes
  stage : PostStage := .unsent

/-- How a POST ended, if it has. -/
def Post.ending? (p : Post) : Option Ending :=
  match p.stage with
  | .ended e => some e
  | _ => none

/-- Whether a POST is under way and its time has come. -/
def Post.isDue (p : Post) (now : Nat) : Bool :=
  match p.stage with
  | .underway due _ => due ≤ now
  | _ => false

/-- A POST that runs by itself, and the task that waits for its end. -/
structure Courier where
  id : WorkId
  waiter : WorkId
  post : Post

/-- How a task can be cancelled. -/
inductive Cancellation where
  | never
  | armed
  | done
deriving DecidableEq, Repr

/-- An exchange in async mode that has its listener and has handed out its POST. -/
structure Vigil where
  watch : Watch
  subscription : Subscription
  /-- When the wait began. -/
  since : Nat
  /-- The POST of the request. -/
  courier : WorkId

/-- When the time for the answer is over. -/
def Vigil.due (v : Vigil) : Nat := v.since + v.watch.timeout.millis

/-- How far a task has come. -/
inductive Stage where
  | fresh
  /-- The listener is being registered. -/
  | subscribing (route : AnswerRoute Medium) (station : Nat) (call : CallId) (listener : ListenerId)
  /-- The listener is registered, and the POST is to be handed out. -/
  | armed (route : AnswerRoute Medium) (subscription : Subscription)
  | watching (vigil : Vigil)
  /-- In sync mode, the response is awaited. -/
  | awaiting (courier : WorkId)
  /-- An answer is being pushed. -/
  | pushing (post : Post)

/-- A task that has not ended. -/
structure Task where
  id : WorkId
  name : String
  job : Job
  cancellation : Cancellation := .never
  /-- Whether the task was dropped and only has to be cleared away. -/
  isDropped : Bool := false
  /-- Whether the task is in the middle of a turn, which goes on without waiting. -/
  isBusy : Bool := false
  stage : Stage := .fresh

/-- Whether a task watches the listener at a seat. -/
def Task.watches (seat : Seat) (t : Task) : Bool :=
  match t.stage with
  | .watching v => v.subscription.seat? == some seat
  | _ => false

/-- How a task ended. -/
structure Ended where
  task : WorkId
  name : String
  outcome : Outcome

/-- Wakes something at a time. -/
structure Alarm where
  due : Nat
  owner : Runnable
deriving DecidableEq, Repr

/-- A world. Times count milliseconds. -/
structure World where
  now : Nat := 0
  hub : Hub := {}
  /-- Whether the hub is held from outside. -/
  holdsHub : Bool := true
  broker : Broker := {}
  stations : List Station := []
  peers : List Peer := []
  tasks : List Task := []
  couriers : List Courier := []
  nextId : WorkId := 0
  ready : List Runnable := []
  alarms : List Alarm := []
  /-- The tasks that have ended, oldest first. -/
  ended : List Ended := []
  events : List Event := []
  log : Log := []

namespace World

/-- Reports lines. -/
def report (lines : Log) (w : World) : World := { w with log := w.log ++ lines }

/-- Records an event. -/
def record (e : Event) (w : World) : World := { w with events := w.events ++ [e] }

/-- Puts something into the queue, where it stands at most once. -/
def wake (r : Runnable) (w : World) : World :=
  if r ∈ w.ready then w else { w with ready := w.ready ++ [r] }

/-- Sets an alarm; among alarms of one time the older ones come first. -/
def setAlarm (due : Nat) (owner : Runnable) (w : World) : World :=
  { w with alarms :=
      w.alarms.takeWhile (·.due ≤ due) ++ ⟨due, owner⟩ :: w.alarms.dropWhile (·.due ≤ due) }

/-- The task with a number. -/
def task? (id : WorkId) (w : World) : Option Task := w.tasks.find? (·.id = id)

/-- The POST with a number. -/
def courier? (id : WorkId) (w : World) : Option Courier := w.couriers.find? (·.id = id)

/-- Puts a changed task in the place of the one with its number. -/
def putTask (t : Task) (w : World) : World :=
  { w with tasks := w.tasks.map fun u => if u.id = t.id then t else u }

/-- Puts a changed POST in the place of the one with its number. -/
def putCourier (c : Courier) (w : World) : World :=
  { w with couriers := w.couriers.map fun d => if d.id = c.id then c else d }

/-- Whether the hub is still there: it is held from outside, or by something that is under way. -/
def hasHub (w : World) : Bool :=
  w.holdsHub || !w.tasks.isEmpty || w.couriers.any (·.post.ending?.isNone)

/-! ### Publishing and listening -/

/-- The tasks that watch the listeners with the given ids on the hub or at a station, in the order
of the listeners. -/
def waiters (place : Option Nat) (ids : List ListenerId) (w : World) : List Runnable :=
  ids.filterMap fun id => (w.tasks.find? (·.watches (place, id))).map fun t => .task t.id

/-- Wakes several in order. -/
def wakeAll (rs : List Runnable) (w : World) : World := rs.foldl (fun w r => w.wake r) w

/-- Publishes on the hub, and wakes those who get the payload. -/
def publishOnHub (key : Key) (payload : Bytes) (w : World) : World :=
  let full := w.hub.full key
  let reached := (w.hub.registry.on key).filter (!full.contains ·)
  let (hub, log) := w.hub.publish key payload
  (report log { w with hub }).wakeAll (w.waiters none reached)

/-- Closes the hub, and wakes those who listened. -/
def closeHub (w : World) : World :=
  let listeners := w.hub.registry.ids
  let (hub, log) := Hub.close w.hub
  (report log { w with hub }).wakeAll (w.waiters none listeners)

/-- Releases a listener of the hub; without a hub there is nothing to report. -/
def releaseOnHub (key : Key) (id : ListenerId) (w : World) : World :=
  let (hub, log) := w.hub.unsubscribe key id
  if w.hasHub then report log { w with hub } else { w with hub }

/-! ### Stations -/

/-- Changes a station, reports, and wakes the tasks that may see a difference: those whose listener
it serves, and those whose call has an outcome. -/
def putStation (i : Nat) (s : Station) (log : Log) (w : World) : World :=
  let listeners := s.link.listeners.inboxes.map (·.1)
  let callers := w.tasks.filterMap fun t =>
    match t.stage with
    | .subscribing _ j call _ =>
      if j = i && (s.link.outcome? call).isSome then some (Runnable.task t.id) else none
    | _ => none
  (report log { w with stations := w.stations.set i s }).wakeAll
    (w.waiters (some i) listeners ++ callers)

/-- Hangs up both connections of a station whose agent has stopped. -/
def hangUpStopped (i : Nat) (w : World) : World :=
  match w.stations[i]? with
  | none => w
  | some s =>
    if s.link.isStopped then
      { w with broker := (w.broker.hangUp s.publishLine).hangUp s.listenLine }
    else w

/-- Brings bytes to the connections that they go to. -/
def bring (sendings : List Sending) (w : World) : World :=
  sendings.foldl (fun w sending =>
    match w.stations.findIdx? (·.listenLine = sending.connection) with
    | none => w
    | some i =>
      wake (.agent i) { w with
        stations := w.stations.modify i fun s =>
          { s with arrived := s.arrived ++ sending.bytes } }) w

/-- Publishes from outside through the broker. -/
def publishByBroker (key : Key) (payload : Bytes) (w : World) : World :=
  w.bring (w.broker.sendings (utf8 key) payload)

/-- Sends the command that the agent of a station executes, and brings what the broker sends: first
what goes out to others, then the reply. -/
def transmit (i : Nat) (command : Redis.Command) (w : World) : World :=
  match w.stations[i]? with
  | none => w
  | some s =>
    match s.request command with
    | none => w
    | some (line, arguments) =>
      let (broker, reply, sendings) := w.broker.execute line arguments
      let w := record (.command arguments line) { w with broker }
      if line = s.publishLine then
        let (s, log) := s.receive reply
        (w.putStation i s log).bring sendings
      else w.bring (sendings ++ [⟨line, reply⟩])

/-- Lets the agent of a station take a command and send it, or stop when there is nobody left
to hand one in. -/
def takeCommand (i : Nat) (w : World) : World :=
  match w.stations[i]? with
  | none => w
  | some s =>
    let (link, log) := s.link.take
    let (link, more) := link.desert
    let w := w.putStation i { s with link } (log ++ more)
    match s.link.agent, link.agent with
    | .idle, .executing command => w.transmit i command
    | _, _ => w

/-- Runs the agent of a station: it works what has arrived and takes one command, and asks to be run
again if it can go on by itself. -/
def runAgent (i : Nat) (w : World) : World :=
  match w.stations[i]? with
  | none => w
  | some s =>
    let (s, log) := s.absorb
    let w := ((w.putStation i s log).takeCommand i).hangUpStopped i
    if (w.stations[i]?).any (·.link.isReady) then w.wake (.agent i) else w

/-- Works a link from outside, and wakes its agent. -/
def onLink (i : Nat) (f : Redis.Link → Redis.Link × Log) (w : World) : World :=
  match w.stations[i]? with
  | none => w
  | some s =>
    let (link, log) := f s.link
    (w.putStation i { s with link } log).wake (.agent i)

/-- Releases a listener on whatever medium it is. -/
def release : Subscription → World → World
  | .hub key id, w => w.releaseOnHub key id
  | .puppet name key script, w => if script.announces then w.record (.release name key) else w
  | .link i key id, w => w.onLink i (·.release key id)

/-- What the inbox of a listener shows. -/
def sight : Subscription → World → Sight
  | .hub _ id, w => w.hub.sight id
  | .puppet _ _ script, _ => Inbox.sight script.staysOpen script.inbox
  | .link i _ id, w =>
    match w.stations[i]? with
    | some s => s.link.listeners.sight id
    | none => .closed

end World

end Roaming.Simulation
