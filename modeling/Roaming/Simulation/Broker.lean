import Roaming.Redis.Link
import Roaming.Redis.Resp
import Roaming.Redis.Target

/-!
# A broker

A broker knows for each connection which channels it is subscribed to. It confirms subscriptions,
passes messages on and counts those who get them, and can be told to send something else instead.
What it sends are bytes; a station reads them and works its link with them.
-/

set_option autoImplicit false
set_option relaxedAutoImplicit false

namespace Roaming.Simulation

open Roaming.Text (Bytes utf8 lossy)
open Roaming.Redis

/-- A connection as the broker sees it. -/
structure Connection where
  channels : List Bytes := []
  isOpen : Bool := true
deriving DecidableEq, Repr

/-- A broker: its connections, numbered in the order in which they were opened, and the replies that
it gives instead of its own to some commands, on connections from a number on. -/
structure Broker where
  connections : List Connection := []
  replies : List (String × Bytes) := []
  fromConnection : Nat := 0
deriving DecidableEq, Repr

/-- Bytes on their way to a connection. -/
structure Sending where
  connection : Nat
  bytes : Bytes
deriving DecidableEq, Repr

namespace Broker

/-- A text that is sent with its length. -/
def bulk (bytes : Bytes) : Bytes :=
  utf8 s!"${bytes.length}\r\n" ++ bytes ++ utf8 "\r\n"

/-- A list that is sent with its length. -/
def list (items : List Bytes) : Bytes :=
  utf8 s!"*{items.length}\r\n" ++ items.flatten

/-- A number as it is sent. -/
def number (n : Nat) : Bytes := utf8 s!":{n}\r\n"

/-- The numbers of the open connections that are subscribed to a channel. -/
def subscribers (b : Broker) (channel : Bytes) : List Nat :=
  (List.range b.connections.length).filter fun i =>
    match b.connections[i]? with
    | some c => c.isOpen && c.channels.contains channel
    | none => false

/-- What goes out when a message is published on a channel. -/
def sendings (b : Broker) (channel payload : Bytes) : List Sending :=
  (b.subscribers channel).map fun i =>
    ⟨i, list [bulk (utf8 "message"), bulk channel, bulk payload]⟩

/-- Changes one connection. -/
def update (i : Nat) (f : Connection → Connection) (b : Broker) : Broker :=
  { b with connections := b.connections.modify i f }

/-- The confirmation of a change of a subscription. -/
def confirm (b : Broker) (i : Nat) (word : String) (channel : Bytes) : Bytes :=
  let count := match b.connections[i]? with
    | some c => c.channels.length
    | none => 0
  list [bulk (utf8 word), bulk channel, number count]

/-- The reply that is given instead of the broker's own. -/
def scripted? (b : Broker) (i : Nat) (name : Bytes) : Option Bytes :=
  if b.fromConnection ≤ i then b.replies.lookup (lossy name) else none

/-- Executes a command that arrived on a connection: the broker after it, the bytes of the reply,
and what else goes out. -/
def execute (i : Nat) (arguments : List Bytes) (b : Broker) : Broker × Bytes × List Sending :=
  match b.scripted? i (arguments.headD []) with
  | some reply => (b, reply, [])
  | none =>
    match arguments with
    | [name, channel] =>
      if name = utf8 "SUBSCRIBE" then
        let b := b.update i fun c =>
          { c with channels :=
              if c.channels.contains channel then c.channels else c.channels ++ [channel] }
        (b, b.confirm i "subscribe" channel, [])
      else if name = utf8 "UNSUBSCRIBE" then
        let b := b.update i fun c => { c with channels := c.channels.filter (· ≠ channel) }
        (b, b.confirm i "unsubscribe" channel, [])
      else (b, utf8 "+OK\r\n", [])
    | [name, channel, payload] =>
      if name = utf8 "PUBLISH" then
        (b, number (b.subscribers channel).length, b.sendings channel payload)
      else (b, utf8 "+OK\r\n", [])
    | _ => (b, utf8 "+OK\r\n", [])

/-- Accepts one more connection. -/
def accept (b : Broker) : Broker := { b with connections := b.connections ++ [{}] }

/-- Closes a connection. -/
def hangUp (i : Nat) (b : Broker) : Broker :=
  b.update i fun c => { c with isOpen := false }

/-- Whether any connection is open. -/
def isConnected (b : Broker) : Bool := b.connections.any (·.isOpen)

end Broker

/-- A link with its two connections, and what arrived on the listening one and was not read. -/
structure Station where
  link : Link := {}
  publishLine : Nat
  listenLine : Nat
  arrived : Bytes := []
  /-- Whether nothing more will arrive. -/
  isCut : Bool := false

namespace Station

/-- The command that the agent sends for what it was asked to do, and the connection for it. -/
def request (s : Station) : Command → Option (Nat × List Bytes)
  | .publish _ channel payload => some (s.publishLine, [utf8 "PUBLISH", utf8 channel, payload])
  | .subscribe _ channel => some (s.listenLine, [utf8 "SUBSCRIBE", utf8 channel])
  | .unsubscribe channel => some (s.listenLine, [utf8 "UNSUBSCRIBE", utf8 channel])
  | .close _ => none

/-- Whether the agent waits for a reply on the listening connection. -/
def awaitsConfirmation (s : Station) : Bool :=
  match s.link.agent with
  | .executing (.subscribe _ _) => true
  | .executing (.unsubscribe _) => true
  | _ => false

/-- Works one value that arrived on the listening connection: a message is delivered, anything else
replies to the command that waits for a reply, and without one ends the stream. -/
def work (v : Resp) (s : Station) : Station × Log :=
  match v.message? with
  | some m =>
    match m.payload.bytes with
    | .ok payload =>
      let (link, log) := s.link.deliver m.channel payload
      ({ s with link }, log)
    | .error text =>
      (s, [.debug s!"redis: failed to get payload on channel {m.channel}: {text}"])
  | none =>
    let (link, log) :=
      if s.awaitsConfirmation then s.link.reply v.confirmation else s.link.streamEnd
    ({ s with link }, log)

/-- Works the values that have arrived, at most `fuel` of them. -/
def absorbFrom : Nat → Station → Station × Log
  | 0, s => (s, [])
  | fuel + 1, s =>
    if s.link.isStopped then (s, [])
    else
      match arrival s.arrived with
      | .incomplete => (s, [])
      | .broken =>
        let (link, log) := s.link.streamEnd
        ({ s with link }, log)
      | .value v rest =>
        let (s, log) := work v { s with arrived := rest }
        let (s, more) := absorbFrom fuel s
        (s, log ++ more)

/-- Works everything that has arrived, and ends the stream if nothing more will. -/
def absorb (s : Station) : Station × Log :=
  let (s, log) := absorbFrom s.arrived.length s
  if s.isCut then
    let (link, more) := s.link.streamEnd
    ({ s with link }, log ++ more)
  else (s, log)

/-- Takes in the reply on the publishing connection. -/
def receive (bytes : Bytes) (s : Station) : Station × Log :=
  match arrival bytes with
  | .incomplete => (s, [])
  | .broken =>
    let (link, log) := s.link.reply (.error "Cannot parse the response")
    ({ s with link }, log)
  | .value v _ =>
    let (link, log) := s.link.reply v.count
    ({ s with link }, log)

end Station

end Roaming.Simulation
