import Roaming.Key
import Roaming.Text.Utf8

/-!
# Listeners

A registry tells for each key which listeners wait on it, in the order in which they came, and lists
no key without listeners. Each listener owns an inbox of a few unread payloads. An inbox is open
while its listener is registered; once it is not, the unread payloads can still be read, and then
the inbox is closed.
-/

set_option autoImplicit false
set_option relaxedAutoImplicit false

namespace Roaming

open Roaming.Text (Bytes)

/-- Names one listener of a registry. -/
abbrev ListenerId := Nat

/-- What an inbox shows to its owner. -/
inductive Sight where
  | message (payload : Bytes)
  | empty
  | closed
deriving DecidableEq, Repr

/-- The unread payloads of a listener, oldest first. -/
abbrev Inbox := List Bytes

namespace Inbox

/-- The number of unread payloads that an inbox holds at most. -/
def capacity : Nat := 4

/-- Whether an inbox takes another payload. -/
def hasRoom (inbox : Inbox) : Bool := inbox.length < capacity

/-- The inbox after a payload was offered: a full one stays as it is. -/
def offer (payload : Bytes) (inbox : Inbox) : Inbox :=
  if inbox.hasRoom then inbox ++ [payload] else inbox

/-- What an inbox shows, given whether more payloads can come. -/
def sight (isOpen : Bool) : Inbox → Sight
  | payload :: _ => .message payload
  | [] => if isOpen then .empty else .closed

end Inbox

/-- For each key with listeners, their ids in order. -/
abbrev Registry := List (Key × List ListenerId)

namespace Registry

/-- The listeners of a key. -/
def on (r : Registry) (key : Key) : List ListenerId :=
  match r with
  | [] => []
  | (k, ids) :: rest => if k = key then ids else Registry.on rest key

/-- The registry with one more listener, the last of its key. -/
def enroll (key : Key) (id : ListenerId) : Registry → Registry
  | [] => [(key, [id])]
  | (k, ids) :: rest =>
    if k = key then (k, ids ++ [id]) :: rest else (k, ids) :: enroll key id rest

/-- The registry without one listener; a key goes with its last listener. -/
def strike (key : Key) (id : ListenerId) : Registry → Registry
  | [] => []
  | (k, ids) :: rest =>
    if k = key then
      match ids.filter (· ≠ id) with
      | [] => rest
      | left => (k, left) :: rest
    else (k, ids) :: strike key id rest

/-- All listeners, key by key. -/
def ids (r : Registry) : List ListenerId :=
  r.flatMap (·.2)

end Registry

/-- Registered listeners and the inboxes of all that were not released. -/
structure Listeners where
  /-- The id that the next listener gets. -/
  next : ListenerId := 0
  registry : Registry := []
  inboxes : List (ListenerId × Inbox) := []
deriving DecidableEq, Repr

namespace Listeners

/-- The number of listeners on a key. -/
def count (l : Listeners) (key : Key) : Nat := (l.registry.on key).length

/-- The number of listeners on all keys. -/
def total (l : Listeners) : Nat := l.registry.ids.length

/-- Whether a key has a listener. -/
def wanted (l : Listeners) (key : Key) : Bool := !(l.registry.on key).isEmpty

/-- Adds a listener, which has the id `l.next`. -/
def add (key : Key) (l : Listeners) : Listeners where
  next := l.next + 1
  registry := l.registry.enroll key l.next
  inboxes := l.inboxes ++ [(l.next, [])]

/-- Releases a listener together with its inbox. -/
def release (key : Key) (id : ListenerId) (l : Listeners) : Listeners :=
  { l with registry := l.registry.strike key id, inboxes := l.inboxes.filter (·.1 ≠ id) }

/-- Offers a payload to every listener of a key. -/
def offer (key : Key) (payload : Bytes) (l : Listeners) : Listeners :=
  { l with inboxes := l.inboxes.map fun entry =>
      if entry.1 ∈ l.registry.on key then (entry.1, entry.2.offer payload) else entry }

/-- Strikes out all listeners; they keep what they have not read. -/
def disconnect (l : Listeners) : Listeners :=
  { l with registry := [] }

/-- The inbox of a listener. -/
def inbox (l : Listeners) (id : ListenerId) : Inbox :=
  (l.inboxes.lookup id).getD []

/-- Whether a listener is registered. -/
def isOpen (l : Listeners) (id : ListenerId) : Bool := l.registry.ids.contains id

/-- What the inbox of a listener shows. -/
def sight (l : Listeners) (id : ListenerId) : Sight :=
  (l.inbox id).sight (l.isOpen id)

/-- Takes the oldest payload out of an inbox. -/
def take (id : ListenerId) (l : Listeners) : Listeners :=
  { l with inboxes := l.inboxes.map fun entry =>
      if entry.1 = id then (entry.1, entry.2.tail) else entry }

/-- The listeners of a key whose inboxes are full, in order. -/
def full (l : Listeners) (key : Key) : List ListenerId :=
  (l.registry.on key).filter fun id => !(l.inbox id).hasRoom

end Listeners

end Roaming
