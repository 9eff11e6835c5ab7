import Roaming.Simulation.World

/-!
# Tasks

A task carries out its job piece by piece: it registers a listener, hands its POST to a courier, and
looks at what there is to see each time that it is run. Each piece is a function of its own, since
others can act between two of them. A task can be dropped at any time; its listener is then
released, and its courier goes on.
-/

set_option autoImplicit false
set_option relaxedAutoImplicit false

namespace Roaming.Simulation

open Roaming.Text (Bytes)
open Roaming.Redis (CallId)

/-- What a job exchanges: who asks, the key of the answer and the bytes of the request. -/
structure Errand where
  caller : Caller
  key : Key
  body : Bytes

/-- The exchange that a job consists of, if it is one. -/
def Job.errand? : Job → Option Errand
  | .exchange caller key body => some ⟨caller, key, body⟩
  | .request actor _ r =>
    some ⟨actor.correlator, actor.requestKey r, actor.requestBody r⟩
  | .push _ _ _ => none
  | .refused _ => none

/-- How a job ends with what its exchange came to. -/
def Job.outcome (job : Job) (result : Except Failure Bytes) : Outcome :=
  match result with
  | .error f => .failed f
  | .ok bytes =>
    match job with
    | .request actor op r =>
      match Answer.accept op (actor.requestKey r) r.base.transactionID bytes with
      | .ok answer => .accepted op answer
      | .error f => .failed f
    | _ => .delivered bytes

/-- The POST that a task has yet to make, if any. -/
def Task.postAhead? (t : Task) : Option Post :=
  match t.stage, t.job with
  | .pushing p, _ => some p
  | .fresh, .push actor _ answer => some ⟨actor.correlator.peer, answer.encode, .unsent⟩
  | .watching _, _ => none
  | .awaiting _, _ => none
  | _, job => job.errand?.map fun e => ⟨e.caller.peer, e.body, .unsent⟩

namespace World

/-! ### POSTs -/

/-- Carries out a peer's reply: what it publishes goes out in order, and then the POST has ended. -/
def carryOut (outlet : Outlet) (reply : Reply) (p : Post) (w : World) : Post × World :=
  let w := reply.publications.foldl (fun w pub =>
    match outlet with
    | .hub => w.publishOnHub pub.key pub.payload
    | .broker => w.publishByBroker pub.key pub.payload) w
  ({ p with stage := .ended reply.ending }, w.report reply.log)

/-- Moves a POST on by one piece: the peer gets it, or carries out its reply if the time for it has
come. -/
def movePost (owner : Runnable) (p : Post) (w : World) : Post × World :=
  match w.peers[p.peer]? with
  | none => (p, w)
  | some peer =>
    match p.stage with
    | .unsent =>
      let reply := peer.react peer.posts p.body
      let due := w.now + reply.delay
      let w := { w with peers := w.peers.set p.peer { peer with posts := peer.posts + 1 } }
      let w := match peer.name with
        | some name => w.record (.post name p.body)
        | none => w
      ({ p with stage := .underway due reply },
        if reply.delay = 0 then w else w.setAlarm due owner)
    | .underway due reply => if due ≤ w.now then carryOut peer.outlet reply p w else (p, w)
    | .ended _ => (p, w)

/-- Moves a courier on by one piece, and wakes the task that waits for the end of the POST. -/
def moveCourier (id : WorkId) (w : World) : World :=
  match w.courier? id with
  | none => w
  | some c =>
    if c.post.ending?.isSome then w
    else
      let (post, w) := w.movePost (.post id) c.post
      let w := w.putCourier { c with post }
      if post.ending?.isSome then w.wake (.task c.waiter) else w

/-- Runs a courier until it waits. -/
def runCourier (id : WorkId) (w : World) : World :=
  let w := w.moveCourier id
  if (w.courier? id).any (·.post.isDue w.now) then w.moveCourier id else w

/-- Hands a POST to a courier, which has the number `w.nextId`. -/
def dispatch (waiter : WorkId) (peer : Nat) (body : Bytes) (w : World) : World :=
  wake (.post w.nextId)
    { w with
      couriers := w.couriers ++ [⟨w.nextId, waiter, { peer, body }⟩]
      nextId := w.nextId + 1 }

/-- How the POST of a courier ended, if it has. -/
def ending? (courier : WorkId) (w : World) : Option Ending :=
  (w.courier? courier).bind (·.post.ending?)

/-! ### The end of a task -/

/-- Ends a task. -/
def finish (t : Task) (outcome : Outcome) (w : World) : World :=
  { w with tasks := w.tasks.filter (·.id ≠ t.id), ended := w.ended ++ [⟨t.id, t.name, outcome⟩] }

/-- Ends a task that has crashed: it leaves no outcome. -/
def crash (t : Task) (w : World) : World :=
  { w with tasks := w.tasks.filter (·.id ≠ t.id) }

/-- Clears away a task that was dropped, and releases its listener. -/
def clear (t : Task) (w : World) : World :=
  let w := match t.stage with
    | .armed _ subscription => w.release subscription
    | .watching v => w.release v.subscription
    | .subscribing _ i call listener =>
      match t.job.errand? with
      | some e => w.onLink i (·.abandon call e.key listener)
      | none => w
    | _ => w
  { w with tasks := w.tasks.filter (·.id ≠ t.id) }

/-! ### Turns

A task that is run takes a turn, piece by piece, until it waits. Between two pieces of a turn
anything else can happen. -/

/-- Leaves a task at a stage in the middle of its turn. -/
def goOn (t : Task) (stage : Stage) (w : World) : World :=
  w.putTask { t with stage, isBusy := true }

/-- Leaves a task at a stage at the end of its turn: it waits to be run again. -/
def rest (t : Task) (stage : Stage) (w : World) : World :=
  w.putTask { t with stage, isBusy := false }

/-- What there is to see for an exchange in async mode. -/
def view (t : Task) (v : Vigil) (w : World) : View where
  inbox := w.sight v.subscription
  sent := w.ending? v.courier
  expired := decide (v.due ≤ w.now)
  cancelled := t.cancellation == .done

/-- Looks at everything that can end an exchange in async mode. -/
def lookAsync (t : Task) (v : Vigil) (w : World) : World :=
  let (watch, outcome, log) := v.watch.poll (w.view t v)
  let w := w.report log
  match outcome with
  | some result => (w.release v.subscription).finish t (t.job.outcome result)
  | none => w.rest t (.watching { v with watch })

/-- Looks at what can end an exchange in sync mode. -/
def lookSync (t : Task) (key : Key) (courier : WorkId) (w : World) : World :=
  let (outcome, log) := Reply.poll key {
    inbox := .empty
    sent := w.ending? courier
    expired := false
    cancelled := t.cancellation == .done }
  let w := w.report log
  match outcome with
  | some result => w.finish t (t.job.outcome result)
  | none => w.rest t (.awaiting courier)

/-- Hands out the POST of an exchange whose listener is registered; the wait begins, with an alarm
for its end. -/
def launch (t : Task) (e : Errand) (route : AnswerRoute Medium) (subscription : Subscription)
    (w : World) : World :=
  let v : Vigil := {
    watch := { key := e.key, timeout := route.timeout, policy := route.policy }
    subscription
    since := w.now
    courier := w.nextId }
  let w := (w.report [.debug s!"{e.key}: listener armed"]).dispatch t.id e.caller.peer e.body
  (w.setAlarm v.due (.task t.id)).goOn t (.watching v)

/-- Looks whether the registration of a listener on a link has come to its end. -/
def lookSubscribing (t : Task) (e : Errand) (route : AnswerRoute Medium) (i : Nat)
    (call : CallId) (listener : ListenerId) (w : World) : World :=
  match (w.stations[i]?).bind (·.link.outcome? call) with
  | none => w.rest t (.subscribing route i call listener)
  | some outcome =>
    let w := w.onLink i fun l => (l.fetched call, [])
    match outcome with
    | .ok () => w.goOn t (.armed route (.link i e.key listener))
    | .error f =>
      (w.release (.link i e.key listener)).finish t (t.job.outcome (.error f))

/-- Begins an exchange: in async mode the listener comes first. -/
def beginExchange (t : Task) (e : Errand) (w : World) : World :=
  match e.caller.answers with
  | none =>
    let courier := w.nextId
    (w.dispatch t.id e.caller.peer e.body).goOn t (.awaiting courier)
  | some route =>
    match route.medium with
    | .hub name =>
      let id := w.hub.next
      let (hub, log) := w.hub.subscribe e.key
      (report log { w.record (.subscribe name e.key) with hub }).goOn t
        (.armed route (.hub e.key id))
    | .puppet name script =>
      let w := w.record (.subscribe name e.key)
      match script.failure with
      | some f => w.finish t (t.job.outcome (.error f))
      | none => w.goOn t (.armed route (.puppet name e.key script))
    | .link i =>
      match w.stations[i]? with
      | none => w
      | some s =>
        (w.onLink i fun l => (l.subscribe e.key, [])).goOn t
          (.subscribing route i s.link.nextCall s.link.listeners.next)

/-- Moves the POST of an answer on, and ends the task with it. The task makes the POST itself, so
that it crashes with it. -/
def movePush {op : Operation} (t : Task) (actor : Actor) (answer : Answer op) (p : Post)
    (w : World) : World :=
  let (p, w) := w.movePost (.task t.id) p
  match p.ending? with
  | none => if p.isDue w.now then w.goOn t (.pushing p) else w.rest t (.pushing p)
  | some ending =>
    match ending.returned? with
    | none => w.crash t
    | some returned =>
      let (result, log) := actor.concludePush answer returned
      (w.report log).finish t (match result with
        | .ok () => .pushed
        | .error f => .failed f)

/-- Begins a task. -/
def begin (t : Task) (w : World) : World :=
  match t.job with
  | .exchange caller key body => w.beginExchange t ⟨caller, key, body⟩
  | .request actor _ request =>
    (w.report [actor.requestLine request]).beginExchange t
      ⟨actor.correlator, actor.requestKey request, actor.requestBody request⟩
  | .push actor _ answer =>
    w.movePush t actor answer ⟨actor.correlator.peer, answer.encode, .unsent⟩
  | .refused refusal => w.finish t (.refused refusal)

/-- Moves a task on by one piece of a turn. A task that was dropped is cleared away when its
next turn begins. -/
def moveTask (id : WorkId) (w : World) : World :=
  match w.task? id with
  | none => w
  | some t =>
    if t.isDropped && !t.isBusy then w.clear t
    else
      match t.stage with
      | .fresh => w.begin t
      | .subscribing route i call listener =>
        match t.job.errand? with
        | some e => w.lookSubscribing t e route i call listener
        | none => w
      | .armed route subscription =>
        match t.job.errand? with
        | some e => w.launch t e route subscription
        | none => w
      | .watching v => w.lookAsync t v
      | .awaiting courier =>
        match t.job.errand? with
        | some e => w.lookSync t e.key courier
        | none => w
      | .pushing p =>
        match t.job with
        | .push actor _ answer => w.movePush t actor answer p
        | _ => w

/-- Moves a task on if it is in the middle of a turn. -/
def continueTask (id : WorkId) (w : World) : World :=
  if (w.task? id).any (·.isBusy) then w.moveTask id else w

/-- Runs a task for one turn, which has four pieces at most: it registers its listener, sees that it
is registered, hands out its POST, and looks. -/
def runTask (id : WorkId) (w : World) : World :=
  (((w.moveTask id).continueTask id).continueTask id).continueTask id

/-! ### Letting things happen -/

/-- Runs what can be run. -/
def run : Runnable → World → World
  | .task id, w => w.runTask id
  | .post id, w => w.runCourier id
  | .agent i, w => w.runAgent i

/-- Runs the queue until it is empty, `fuel` entries at most. -/
def settleFrom : Nat → World → World
  | 0, w => w
  | fuel + 1, w =>
    match w.ready with
    | [] => w
    | r :: rest => settleFrom fuel (run r { w with ready := rest })

/-- What may yet be published while time stands still, if `n` POSTs at most are made. -/
def publicationsAhead (n : Nat) (w : World) (p : Post) : List Publication :=
  match p.stage with
  | .unsent =>
    match w.peers[p.peer]? with
    | none => []
    | some peer =>
      (List.range n).flatMap fun i => (peer.react (peer.posts + i) p.body).publications
  | .underway _ reply => reply.publications
  | .ended _ => []

/-- More entries than the queue can come to hold, one after the other: everything that is under way
is woken at most once for each payload, command or end of a POST. -/
def patience (w : World) : Nat :=
  let parties := 4 + w.tasks.length + w.couriers.length + w.stations.length
  let posts := w.couriers.map (·.post) ++ w.tasks.filterMap Task.postAhead?
  let payloads := posts.flatMap (publicationsAhead posts.length w)
  let commands := w.stations.flatMap fun s => s.link.queue ++ s.link.blocked
  8 * parties * (parties + payloads.length + commands.length)

/-- Runs everything until it waits. -/
def settle (w : World) : World := w.settleFrom w.patience

/-- Moves the clock on to a time, and wakes everything whose alarms are due by then. -/
def ring (time : Nat) (w : World) : World :=
  wakeAll ((w.alarms.filter fun a => a.due ≤ time).map Alarm.owner)
    { w with
      now := max w.now time
      alarms := w.alarms.filter fun a => !decide (a.due ≤ time) }

/-- Moves the clock on to a time, alarm by alarm, `fuel` times of alarms at most. -/
def passFrom : Nat → Nat → World → World
  | 0, time, w => w.ring time
  | fuel + 1, time, w =>
    match w.alarms with
    | [] => w.ring time
    | alarm :: _ =>
      if alarm.due ≤ time then passFrom fuel time (w.ring alarm.due).settle
      else w.ring time

/-- Lets time pass up to a time: what is due is run in order. -/
def pass (time : Nat) (w : World) : World :=
  w.passFrom (w.alarms.length + 2 * w.tasks.length + w.couriers.length + 1) time

/-- Starts a task. -/
def start (name : String) (job : Job) (cancellation : Cancellation) (w : World) : World :=
  wake (.task w.nextId)
    { w with
      tasks := w.tasks ++ [{ id := w.nextId, name, job, cancellation }]
      nextId := w.nextId + 1 }

/-- Cancels a task that can be cancelled. -/
def cancel (id : WorkId) (w : World) : World :=
  match w.task? id with
  | none => w
  | some t => (w.putTask { t with cancellation := .done }).wake (.task id)

/-- Drops a task, which is cleared away when it is run next. -/
def drop (id : WorkId) (w : World) : World :=
  match w.task? id with
  | none => w
  | some t => (w.putTask { t with isDropped := true }).wake (.task id)

end World

end Roaming.Simulation
