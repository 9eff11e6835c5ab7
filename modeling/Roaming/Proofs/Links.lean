import Roaming.Proofs.Listeners
import Roaming.Simulation.Broker

/-!
# Listeners of a link

No step of a link takes an inbox away or anything out of it, or uses an id twice, except for the
release of a listener: the agent, the broker's connections and the callers only add listeners and
put payloads into inboxes.
-/

set_option autoImplicit false
set_option relaxedAutoImplicit false

namespace Roaming

open Roaming.Text (Bytes)

/-- Whether `l'` has the inboxes of `l` with what was in them, and has given out no id of `l`
again. -/
structure Listeners.Extends (l l' : Listeners) : Prop where
  next_le : l.next ≤ l'.next
  holds : ∀ id, l.Holds id → l'.Holds id
  held : ∀ id, id < l.next → l'.Holds id → l.Holds id
  inbox : ∀ id, l.Holds id → l.inbox id <+: l'.inbox id

namespace Listeners

theorem Extends.refl (l : Listeners) : l.Extends l :=
  ⟨Nat.le_refl _, fun _ h => h, fun _ _ h => h, fun _ _ => List.prefix_refl _⟩

theorem Extends.of_eq {l l' : Listeners} (h : l' = l) : l.Extends l' := h ▸ .refl l

theorem Extends.trans {l₁ l₂ l₃ : Listeners} (h : l₁.Extends l₂) (h' : l₂.Extends l₃) :
    l₁.Extends l₃ :=
  ⟨Nat.le_trans h.next_le h'.next_le, fun id hid => h'.holds id (h.holds id hid),
    fun id hlt hid => h.held id hlt (h'.held id (Nat.lt_of_lt_of_le hlt h.next_le) hid),
    fun id hid => (h.inbox id hid).trans (h'.inbox id (h.holds id hid))⟩

theorem extends_offer (l : Listeners) (key : Key) (payload : Bytes) :
    l.Extends (l.offer key payload) := by
  refine ⟨Nat.le_refl _, fun _ h => holds_offer.mpr h, fun _ _ h => holds_offer.mp h,
    fun id h => ?_⟩
  rw [inbox_offer h]
  split
  · unfold Inbox.offer
    split
    · exact List.prefix_append _ _
    · exact List.prefix_refl _
  · exact List.prefix_refl _

theorem extends_disconnect (l : Listeners) : l.Extends l.disconnect :=
  ⟨Nat.le_refl _, fun _ h => h, fun _ _ h => h, fun _ _ => List.prefix_refl _⟩

end Listeners

namespace Redis.Link

theorem listeners_send (command : Command) (l : Link) :
    (l.send command).listeners = l.listeners := by
  unfold send
  split
  · rfl
  · split <;> rfl

theorem listeners_subscribe (channel : Key) (l : Link) :
    (l.subscribe channel).listeners = l.listeners.add channel := by
  simp only [subscribe, listeners_send]

theorem listeners_refill (l : Link) : l.refill.listeners = l.listeners := by
  unfold refill
  split
  · rfl
  · split <;> rfl

theorem agent_refill (l : Link) : l.refill.agent = l.agent := by
  unfold refill
  split
  · rfl
  · split <;> rfl

theorem listeners_release (channel : Key) (id : ListenerId) (l : Link) :
    (l.release channel id).1.listeners = l.listeners.release channel id := by
  unfold release
  dsimp only
  split
  · split
    · rfl
    · split <;> rfl
  · rfl

theorem listeners_reply (r : BrokerReply) (l : Link) : (l.reply r).1.listeners = l.listeners := by
  unfold reply
  split <;> rfl

end Redis.Link

end Roaming
