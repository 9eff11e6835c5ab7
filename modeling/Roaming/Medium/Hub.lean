import Roaming.Listeners
import Roaming.Log

/-!
# Hubs

A hub connects the clients of one process: what is published on a key goes at once to every listener
of the key. Publishing and subscribing never fail. Closing a hub strikes out all its listeners; the
hub itself stays usable.
-/

set_option autoImplicit false
set_option relaxedAutoImplicit false

namespace Roaming

open Roaming.Text (Bytes)

/-- The listeners that a hub serves. -/
abbrev Hub := Listeners

namespace Hub

/-- Adds a listener, which has the id `h.next`. -/
def subscribe (key : Key) (h : Hub) : Hub × Log :=
  (h.add key, [.debug s!"memory: subscribe to {key} (id {h.next})"])

/-- Offers a payload to the listeners of a key; those whose inboxes are full miss it. -/
def publish (key : Key) (payload : Bytes) (h : Hub) : Hub × Log :=
  (h.offer key payload,
    .debug s!"memory: publish to {key} ({h.count key} listeners)" ::
      (h.full key).map fun _ =>
        .debug s!"memory: drop delivery on {key}: no available capacity")

/-- Releases a listener. -/
def unsubscribe (key : Key) (id : ListenerId) (h : Hub) : Hub × Log :=
  (h.release key id, [.debug s!"memory: release {key} (id {id})"])

/-- Strikes out all listeners. -/
def close (h : Hub) : Hub × Log :=
  (h.disconnect, [.debug "memory: closing pub/sub"])

/-- What a listener saw of one payload, before and after the hub was closed. -/
structure Trial where
  received : Sight
  afterClose : Sight
  hub : Hub
  log : Log

/-- Tries a hub with one listener and one payload, closes it, and releases the listener. -/
def trial (key : Key) (payload : Bytes) (h : Hub) : Trial :=
  let id := h.next
  let (h, log₁) := h.subscribe key
  let (h, log₂) := h.publish key payload
  let received := h.sight id
  let (h, log₃) := Hub.close (h.take id)
  let afterClose := h.sight id
  let (h, log₄) := h.unsubscribe key id
  ⟨received, afterClose, h, log₁ ++ log₂ ++ log₃ ++ log₄⟩

end Hub

end Roaming
