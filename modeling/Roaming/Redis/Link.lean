import Roaming.Listeners
import Roaming.Log

/-!
# Links to a Redis broker

A link shares one broker between the callers of a process. A caller puts a command into a queue of
bounded length and waits for its outcome; one agent takes the commands out, one at a time, and talks
to the broker. A listener is registered before its command is queued, so that no message can miss
it, and releasing the last listener of a channel queues an unsubscription, which is skipped if the
channel has a listener again by the time it is taken.

Every function here is one step of a caller, of the agent or of the broker's connection; any
order of them is a run.
-/

set_option autoImplicit false
set_option relaxedAutoImplicit false

namespace Roaming.Redis

open Roaming.Text (Bytes)

/-- Names one call of a link. -/
abbrev CallId := Nat

/-- What the agent is asked to do. -/
inductive Command where
  | publish (call : CallId) (channel : Key) (payload : Bytes)
  | subscribe (call : CallId) (channel : Key)
  | unsubscribe (channel : Key)
  | close (call : CallId)
deriving DecidableEq, Repr

/-- The agent of a link. -/
inductive Agent where
  /-- Ready for the next command. -/
  | idle
  /-- Waiting for the broker's reply to a command. -/
  | executing (command : Command)
  /-- Gone for good. -/
  | stopped
deriving DecidableEq, Repr

/-- A link: its listeners, the agent, the commands in the queue and those that wait for room in it,
and the outcomes that callers have not fetched. -/
structure Link where
  listeners : Listeners := {}
  agent : Agent := .idle
  queue : List Command := []
  blocked : List Command := []
  outcomes : List (CallId × Except Failure Unit) := []
  nextCall : CallId := 0
  /-- Whether the object that calls are made on is still there. -/
  isHeld : Bool := true

/-- The outcome of a call to which the agent has nothing to say any more. -/
def Command.abandoned (reason : String) : Command → List (CallId × Except Failure Unit)
  | .publish call _ _ => [(call, .error (.publish reason))]
  | .subscribe call _ => [(call, .error (.transport reason))]
  | .unsubscribe _ => []
  | .close call => [(call, .ok ())]

/-- The call that handed a command in. -/
def Command.call? : Command → Option CallId
  | .publish call _ _ => some call
  | .subscribe call _ => some call
  | .unsubscribe _ => none
  | .close call => some call

namespace Link

/-- The number of commands that the queue holds at most. -/
def capacity : Nat := 64

/-- Whether the agent has stopped. -/
def isStopped (l : Link) : Bool := l.agent == .stopped

/-- Whether the queue takes a command that cannot wait. -/
def hasRoom (l : Link) : Bool := l.queue.length < capacity && l.blocked.isEmpty

/-! ### Callers -/

/-- Hands a command in: it is refused if the agent has stopped, and waits if the queue is full. -/
def send (command : Command) (l : Link) : Link :=
  if l.isStopped then
    { l with outcomes := l.outcomes ++
        Command.abandoned "actor command channel closed: channel closed" command }
  else if l.hasRoom then { l with queue := l.queue ++ [command] }
  else { l with blocked := l.blocked ++ [command] }

/-- Starts to publish, as the call `l.nextCall`. -/
def publish (channel : Key) (payload : Bytes) (l : Link) : Link :=
  { l.send (.publish l.nextCall channel payload) with nextCall := l.nextCall + 1 }

/-- Starts to subscribe, as the call `l.nextCall`: the listener `l.listeners.next` is registered
before the command is handed in. -/
def subscribe (channel : Key) (l : Link) : Link :=
  { ({ l with listeners := l.listeners.add channel }).send (.subscribe l.nextCall channel) with
    nextCall := l.nextCall + 1 }

/-- Starts to close the link, as the call `l.nextCall`. -/
def close (l : Link) : Link :=
  { l.send (.close l.nextCall) with nextCall := l.nextCall + 1 }

/-- The outcome of a call, once it is there. -/
def outcome? (call : CallId) (l : Link) : Option (Except Failure Unit) :=
  l.outcomes.lookup call

/-- Takes away the outcome of a call. -/
def fetched (call : CallId) (l : Link) : Link :=
  { l with outcomes := l.outcomes.filter (·.1 ≠ call) }

/-- Releases a listener. If it was the last one of its channel, an unsubscription is queued, which
is lost when the queue takes none. -/
def release (channel : Key) (id : ListenerId) (l : Link) : Link × Log :=
  let released := { l with listeners := l.listeners.release channel id }
  if l.listeners.wanted channel && !released.listeners.wanted channel then
    if l.isStopped then
      (released, [.debug s!"redis: could not queue unsubscribe for {channel}: channel closed"])
    else if l.hasRoom then
      ({ released with queue := l.queue ++ [.unsubscribe channel] }, [])
    else
      (released,
        [.debug s!"redis: could not queue unsubscribe for {channel}: no available capacity"])
  else (released, [])

/-- Gives up a subscription that has no outcome yet: a command that waits for room goes, one in the
queue stays, and the listener is released. -/
def abandon (call : CallId) (channel : Key) (id : ListenerId) (l : Link) : Link × Log :=
  release channel id { l with blocked := l.blocked.filter (fun c => c.call? ≠ some call) }

/-! ### The agent -/

/-- Lets a waiting command into the queue. -/
def refill (l : Link) : Link :=
  match l.blocked with
  | [] => l
  | command :: rest =>
    if l.queue.length < capacity then { l with queue := l.queue ++ [command], blocked := rest }
    else l

/-- Stops the agent: all listeners are struck out, and no call is left waiting. -/
def stop (l : Link) : Link × Log :=
  ({ l with
      agent := .stopped
      listeners := l.listeners.disconnect
      queue := []
      blocked := []
      outcomes := l.outcomes ++
        l.queue.flatMap (Command.abandoned "actor responder channel read failed: channel closed") ++
        l.blocked.flatMap (Command.abandoned "actor command channel closed: channel closed") },
    [.debug "redis: actor stopped"])

/-- Takes the next command: the agent stops at the command to close, skips an unsubscription from a
channel that is wanted, and passes everything else on to the broker. -/
def take (l : Link) : Link × Log :=
  match l.agent, l.queue with
  | .idle, command :: rest =>
    let l := { l with queue := rest }
    match command with
    | .close call =>
      let (l, log) := stop { l with outcomes := l.outcomes ++ [(call, .ok ())] }
      (l, .debug "redis: disconnecting" :: log)
    | .unsubscribe channel =>
      if l.listeners.wanted channel then (l.refill, [])
      else ({ l.refill with agent := .executing command }, [])
    | _ => ({ l.refill with agent := .executing command }, [])
  | _, _ => (l, [])

/-- The broker's reply to a command: a number, or an error with its text. -/
abbrev BrokerReply := Except String Int

/-- What a reply to a command means: the outcome of the call, if there is one, and what is
reported. -/
def conclude : Command → BrokerReply → List (CallId × Except Failure Unit) × Log
  | .publish call channel _, .ok receivers =>
    ([(call, .ok ())], [.debug s!"redis: published on {channel} to {receivers} receivers"])
  | .publish call channel _, .error text =>
    let message := s!"publish failed for channel {channel}: {text}"
    ([(call, .error (.publish message))], [.error s!"redis: {message}"])
  | .subscribe call channel, .ok _ =>
    ([(call, .ok ())], [.debug s!"redis: subscribed to {channel}"])
  | .subscribe call channel, .error text =>
    let message := s!"failed to subscribe to channel {channel}: {text}"
    ([(call, .error (.transport message))], [.error s!"redis: {message}"])
  | .unsubscribe _, .ok _ => ([], [])
  | .unsubscribe channel, .error text =>
    ([], [.debug s!"redis: unsubscribe {channel} failed: {text}"])
  | .close call, _ => ([(call, .ok ())], [])

/-- Takes the broker's reply to the command that is executing. -/
def reply (r : BrokerReply) (l : Link) : Link × Log :=
  match l.agent with
  | .executing command =>
    let (outcomes, log) := conclude command r
    ({ l with agent := .idle, outcomes := l.outcomes ++ outcomes }, log)
  | _ => (l, [])

/-- Offers a message of the broker to the listeners of its channel; those whose inboxes are full
miss it. -/
def deliver (channel : Key) (payload : Bytes) (l : Link) : Link × Log :=
  ({ l with listeners := l.listeners.offer channel payload },
    (l.listeners.full channel).map fun _ =>
      .debug s!"redis: drop delivery on {channel}: no available capacity")

/-- The end of the broker's messages, which stops the agent. -/
def streamEnd (l : Link) : Link × Log :=
  if l.isStopped then (l, [])
  else
    let (l, log) := l.stop
    (l, .error "redis: pubsub stream ended" :: log)

/-- Whether nobody can hand a command in any more: the link is not held, no listener is left, and
nothing waits. -/
def isDeserted (l : Link) : Bool :=
  !l.isHeld && l.listeners.inboxes.isEmpty && l.queue.isEmpty && l.blocked.isEmpty &&
    l.agent == .idle

/-- Whether the agent can go on without anything new: a command is there to take, or it is left
alone. -/
def isReady (l : Link) : Bool := l.agent == .idle && (!l.queue.isEmpty || l.isDeserted)

/-- Stops the agent of a deserted link. -/
def desert (l : Link) : Link × Log :=
  if l.isDeserted then l.stop else (l, [])

end Link

end Roaming.Redis
