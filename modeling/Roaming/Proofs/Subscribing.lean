import Roaming.Proofs.Links
import Roaming.Proofs.Publications

/-!
# A link at work

The steps of a link are taken apart where others can act in between: a listener is registered before
its command is handed in, it is struck out before its unsubscription is queued, and the agent takes
an unsubscription before it looks whether the channel is wanted again. A system is a link together
with those who subscribe through it and with the broker on the other side. It changes act by act,
and any list of acts is a run.
-/

set_option autoImplicit false
set_option relaxedAutoImplicit false

namespace Roaming.Redis

open Roaming.Text (Bytes)

/-! ### Smaller steps of a link -/

namespace Link

/-- Registers the listener `l.listeners.next`. -/
def register (channel : Key) (l : Link) : Link :=
  { l with listeners := l.listeners.add channel }

/-- Hands in the command to subscribe to a channel, as the call `l.nextCall`. -/
def request (channel : Key) (l : Link) : Link :=
  { l.send (.subscribe l.nextCall channel) with nextCall := l.nextCall + 1 }

theorem subscribe_eq (channel : Key) (l : Link) :
    l.subscribe channel = (l.register channel).request channel := rfl

/-- Takes back the command of a call that waits for room. -/
def withdraw (call : CallId) (l : Link) : Link :=
  { l with blocked := l.blocked.filter (fun c => c.call? ≠ some call) }

/-- Strikes a listener out. -/
def strike (channel : Key) (id : ListenerId) (l : Link) : Link :=
  { l with listeners := l.listeners.release channel id }

/-- Whether a listener is the last of its channel. -/
def isLast (channel : Key) (id : ListenerId) (l : Link) : Bool :=
  l.listeners.wanted channel && !(l.strike channel id).listeners.wanted channel

/-- Queues the unsubscription from a channel, if the queue takes it. -/
def retire (channel : Key) (l : Link) : Link :=
  if !l.isStopped && l.hasRoom then { l with queue := l.queue ++ [.unsubscribe channel] } else l

theorem release_eq (channel : Key) (id : ListenerId) (l : Link) :
    (l.release channel id).1 =
      if l.isLast channel id then (l.strike channel id).retire channel
      else l.strike channel id := by
  have hstopped : (l.strike channel id).isStopped = l.isStopped := rfl
  have hroom : (l.strike channel id).hasRoom = l.hasRoom := rfl
  unfold release isLast retire
  rw [hstopped, hroom]
  by_cases hlast : (l.listeners.wanted channel &&
      !(l.strike channel id).listeners.wanted channel) = true
  · rw [if_pos hlast]
    dsimp only [strike] at hlast ⊢
    rw [if_pos hlast]
    cases l.isStopped <;> cases l.hasRoom <;> rfl
  · rw [if_neg hlast]
    dsimp only [strike] at hlast ⊢
    rw [if_neg hlast]

theorem abandon_eq (call : CallId) (channel : Key) (id : ListenerId) (l : Link) :
    (l.abandon call channel id).1 = ((l.withdraw call).release channel id).1 := rfl

/-- Takes the next command, as `take` does, but leaves it open whether an
unsubscription is skipped. -/
def draw (l : Link) : Link :=
  match l.agent, l.queue with
  | .idle, .unsubscribe channel :: rest =>
    { refill { l with queue := rest } with agent := .executing (.unsubscribe channel) }
  | _, _ => l.take.1

/-- Skips an unsubscription from a channel that is wanted. -/
def check (l : Link) : Link :=
  match l.agent with
  | .executing (.unsubscribe channel) =>
    if l.listeners.wanted channel then { l with agent := .idle } else l
  | _ => l

variable {l : Link}

theorem draw_nil (hq : l.queue = []) : l.draw = l := by
  cases hagent : l.agent <;> simp [draw, take, hagent, hq]

theorem draw_close {call : CallId} {rest : List Command} (hidle : l.agent = .idle)
    (hq : l.queue = .close call :: rest) :
    l.draw = (stop { l with queue := rest, outcomes := l.outcomes ++ [(call, .ok ())] }).1 := by
  simp [draw, take, hidle, hq]

theorem draw_cons {command : Command} {rest : List Command} (hidle : l.agent = .idle)
    (hq : l.queue = command :: rest) (hcommand : ∀ call, command ≠ .close call) :
    l.draw = { refill { l with queue := rest } with agent := .executing command } := by
  cases command with
  | close call => exact absurd rfl (hcommand call)
  | unsubscribe channel => simp [draw, hidle, hq]
  | publish call channel payload => simp [draw, take, hidle, hq]
  | subscribe call channel => simp [draw, take, hidle, hq]

theorem check_of_wanted {channel : Key} (hagent : l.agent = .executing (.unsubscribe channel))
    (hwanted : l.listeners.wanted channel = true) : l.check = { l with agent := .idle } := by
  simp [check, hagent, hwanted]

theorem check_of_unwanted (h : ∀ channel, l.agent = .executing (.unsubscribe channel) →
    l.listeners.wanted channel = false) : l.check = l := by
  unfold check
  split
  · next channel hagent => rw [h channel hagent, if_neg Bool.false_ne_true]
  · rfl

theorem reply_of_executing {command : Command} (hagent : l.agent = .executing command)
    (r : BrokerReply) : (l.reply r).1 =
      { l with agent := .idle, outcomes := l.outcomes ++ (conclude command r).1 } := by
  simp [reply, hagent]

theorem reply_of_not_executing (h : ∀ command, l.agent ≠ .executing command) (r : BrokerReply) :
    (l.reply r).1 = l := by
  unfold reply
  split
  · next command hagent => exact absurd hagent (h command)
  · rfl

theorem take_eq (hidle : l.agent = .idle) : l.take.1 = l.draw.check := by
  cases hq : l.queue with
  | nil =>
    rw [draw_nil hq]
    simp [take, check, hidle, hq]
  | cons command rest =>
    cases command with
    | close call => simp [take, draw, check, hidle, hq, stop]
    | publish call channel payload => simp [take, draw, check, hidle, hq]
    | subscribe call channel => simp [take, draw, check, hidle, hq]
    | unsubscribe channel =>
      have hlisteners := listeners_refill { l with queue := rest }
      have hagent := (agent_refill { l with queue := rest }).trans hidle
      rw [draw_cons hidle hq (by simp)]
      simp only [take, check, hidle, hq] at hlisteners hagent ⊢
      generalize refill { l with agent := .idle, queue := rest } = l' at hlisteners hagent ⊢
      rw [hlisteners]
      split
      · rw [← hagent, ← hlisteners]
      · rw [← hlisteners]

end Link

/-! ### Subscribers and the broker -/

/-- How far somebody who asked for a listener has come. -/
inductive Hold where
  /-- The listener is registered, and its command is yet to be handed in. -/
  | registered
  | waiting (call : CallId)
  /-- The call has come to nothing, and the listener is yet to be released. -/
  | failed
  | held
  /-- The listener is struck out; if it was the last, its unsubscription is yet to be queued. -/
  | leaving (last : Bool)
deriving DecidableEq, Repr

/-- Somebody who asked for a listener. -/
structure Subscriber where
  id : ListenerId
  channel : Key
  hold : Hold
deriving DecidableEq, Repr

/-- How far the command that the agent executes has come. -/
inductive Service where
  | unsent
  /-- The broker has yet to serve it. -/
  | asked
  /-- The broker has served it, and the reply is on its way. -/
  | answered (r : Link.BrokerReply)

/-- The channels after the broker has carried out a command. -/
def Command.effect (channels : List Key) : Command → List Key
  | .subscribe _ channel => if channel ∈ channels then channels else channels ++ [channel]
  | .unsubscribe channel => channels.filter (· ≠ channel)
  | .publish _ _ _ => channels
  | .close _ => channels

/-- What a command publishes. -/
def Command.publications : Command → List Publication
  | .publish _ channel payload => [⟨channel, payload⟩]
  | _ => []

/-- A link, its subscribers, and the broker: the channels that the link's connection is subscribed
to, and the messages on their way to the agent. -/
structure System where
  link : Link := {}
  subscribers : List Subscriber := []
  service : Service := .unsent
  channels : List Key := []
  stream : List Publication := []

/-- What can happen to a system. -/
inductive Act where
  | register (channel : Key)
  | request (id : ListenerId)
  /-- A subscriber takes the outcome of its call. -/
  | resume (id : ListenerId)
  /-- A subscriber gives its call up while it waits, or before its command is handed in. -/
  | giveUp (id : ListenerId)
  | strike (id : ListenerId)
  | retire (id : ListenerId)
  | receive (id : ListenerId)
  | publish (channel : Key) (payload : Bytes)
  | close
  | letGo
  /-- The agent takes a command. -/
  | draw
  /-- The agent sends the command that it has taken, or skips it. -/
  | send
  /-- The agent takes the reply to the command. -/
  | conclude
  /-- The agent takes a message. -/
  | deliver
  | streamEnd
  | desert
  /-- The broker serves a command; one that it refuses may have been carried out nevertheless. -/
  | serve (r : Link.BrokerReply) (applied : Bool)
  /-- Somebody else publishes. -/
  | speak (pub : Publication)

namespace System

/-- The subscriber with a number. -/
def subscriber? (id : ListenerId) (s : System) : Option Subscriber :=
  s.subscribers.find? (·.id = id)

/-- Whether a subscriber can read its inbox. -/
def canRead (id : ListenerId) (s : System) : Bool :=
  match s.subscriber? id with
  | some ⟨_, _, .held⟩ => true
  | _ => false

/-- Moves a subscriber on. -/
def put (id : ListenerId) (hold : Hold) (s : System) : System :=
  { s with subscribers := s.subscribers.map fun u => if u.id = id then { u with hold } else u }

/-- Takes a subscriber away. -/
def without (id : ListenerId) (s : System) : System :=
  { s with subscribers := s.subscribers.filter (·.id ≠ id) }

/-- The broker passes on what is published, as far as the link is subscribed to it. -/
def hear (pubs : List Publication) (s : System) : System :=
  { s with stream := s.stream ++ pubs.filter (·.key ∈ s.channels) }

/-- Lets something happen; what is not possible does nothing. -/
def act (a : Act) (s : System) : System :=
  match a with
  | .register channel =>
    if s.link.isHeld then
      { s with
        link := s.link.register channel
        subscribers := s.subscribers ++ [⟨s.link.listeners.next, channel, .registered⟩] }
    else s
  | .request id =>
    match s.subscriber? id with
    | some ⟨_, channel, .registered⟩ =>
      { s.put id (.waiting s.link.nextCall) with link := s.link.request channel }
    | _ => s
  | .resume id =>
    match s.subscriber? id with
    | some ⟨_, _, .waiting call⟩ =>
      match s.link.outcome? call with
      | some (.ok ()) => { s.put id .held with link := s.link.fetched call }
      | some (.error _) => { s.put id .failed with link := s.link.fetched call }
      | none => s
    | _ => s
  | .giveUp id =>
    match s.subscriber? id with
    | some ⟨_, _, .registered⟩ => s.put id .failed
    | some ⟨_, _, .waiting call⟩ => { s.put id .failed with link := s.link.withdraw call }
    | _ => s
  | .strike id =>
    match s.subscriber? id with
    | some u =>
      if u.hold = .failed ∨ u.hold = .held then
        { s.put id (.leaving (s.link.isLast u.channel id)) with link := s.link.strike u.channel id }
      else s
    | none => s
  | .retire id =>
    match s.subscriber? id with
    | some ⟨_, channel, .leaving last⟩ =>
      { s.without id with link := if last then s.link.retire channel else s.link }
    | _ => s
  | .receive id =>
    if s.canRead id then { s with link := { s.link with listeners := s.link.listeners.take id } }
    else s
  | .publish channel payload =>
    if s.link.isHeld then { s with link := s.link.publish channel payload } else s
  | .close => if s.link.isHeld then { s with link := s.link.close } else s
  | .letGo => { s with link := { s.link with isHeld := false } }
  | .draw =>
    if s.link.agent = .idle then { s with link := s.link.draw, service := .unsent } else s
  | .send =>
    match s.link.agent, s.service with
    | .executing _, .unsent =>
      if s.link.check.agent = .idle then { s with link := s.link.check }
      else { s with service := .asked }
    | _, _ => s
  | .conclude =>
    match s.service with
    | .answered r => { s with link := (s.link.reply r).1, service := .unsent }
    | _ => s
  | .deliver =>
    match s.link.agent, s.stream with
    | .idle, pub :: rest =>
      { s with link := (s.link.deliver pub.key pub.payload).1, stream := rest }
    | _, _ => s
  | .streamEnd =>
    match s.link.agent, s.stream with
    | .idle, [] => { s with link := s.link.streamEnd.1 }
    | _, _ => s
  | .desert => if s.subscribers = [] then { s with link := s.link.desert.1 } else s
  | .serve r applied =>
    match s.link.agent, s.service with
    | .executing command, .asked =>
      if r.isOk || applied then
        { s.hear command.publications with
          channels := command.effect s.channels, service := .answered r }
      else { s with service := .answered r }
    | _, _ => s
  | .speak pub => s.hear [pub]

/-- The system after acts. -/
def after (acts : List Act) (s : System) : System := acts.foldl (fun s a => s.act a) s

@[simp] theorem after_nil (s : System) : s.after [] = s := rfl

@[simp] theorem after_cons (a : Act) (acts : List Act) (s : System) :
    s.after (a :: acts) = (s.act a).after acts := rfl

/-- A link that was just opened. -/
def opening : System := {}

end System

end Roaming.Redis
