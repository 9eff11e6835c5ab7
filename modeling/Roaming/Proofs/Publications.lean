import Roaming.Proofs.Listeners
import Roaming.Client.Answering

/-!
# Publications

Publications are offered in order, each to the listeners of its key. What a listener gets of them
are the payloads on its own key, as long as its inbox has room.
-/

set_option autoImplicit false
set_option relaxedAutoImplicit false

namespace Roaming

open Roaming.Text (Bytes)

/-- An inbox after payloads were offered in order. -/
def Inbox.offerAll (payloads : List Bytes) (inbox : Inbox) : Inbox :=
  payloads.foldl (fun b p => b.offer p) inbox

/-- The payloads among publications that are on a key. -/
def payloadsOn (key : Key) (pubs : List Publication) : List Bytes :=
  (pubs.filter (·.key = key)).map (·.payload)

/-- Listeners after publications. -/
def Listeners.offerAll (pubs : List Publication) (l : Listeners) : Listeners :=
  pubs.foldl (fun l pub => l.offer pub.key pub.payload) l

@[simp] theorem payloadsOn_nil (key : Key) : payloadsOn key [] = [] := rfl

theorem payloadsOn_append (key : Key) (pubs pubs' : List Publication) :
    payloadsOn key (pubs ++ pubs') = payloadsOn key pubs ++ payloadsOn key pubs' := by
  simp [payloadsOn]

/-! ### One inbox -/

namespace Inbox

@[simp] theorem offerAll_nil (inbox : Inbox) : inbox.offerAll [] = inbox := rfl

/-- An inbox takes the first payloads that it has room for. -/
theorem offerAll_eq_take {payloads : List Bytes} {inbox : Inbox} (h : inbox.length ≤ capacity) :
    inbox.offerAll payloads = (inbox ++ payloads).take capacity := by
  induction payloads generalizing inbox with
  | nil => rw [offerAll_nil, List.append_nil, List.take_of_length_le h]
  | cons p rest ih =>
    by_cases hroom : inbox.hasRoom = true
    · have hlt : inbox.length < capacity := by simpa [hasRoom] using hroom
      have hoffer : inbox.offer p = inbox ++ [p] := if_pos hroom
      have hlen : (inbox ++ [p]).length ≤ capacity := by
        rw [List.length_append, List.length_singleton]
        exact hlt
      calc inbox.offerAll (p :: rest) = Inbox.offerAll rest (inbox.offer p) := rfl
        _ = ((inbox ++ [p]) ++ rest).take capacity := by rw [hoffer, ih hlen]
        _ = (inbox ++ p :: rest).take capacity := by rw [List.append_assoc, List.singleton_append]
    · have hfull : inbox.length = capacity := by
        have hge : ¬ inbox.length < capacity := by simpa [hasRoom] using hroom
        omega
      have hoffer : inbox.offer p = inbox := if_neg hroom
      calc inbox.offerAll (p :: rest) = Inbox.offerAll rest (inbox.offer p) := rfl
        _ = (inbox ++ rest).take capacity := by rw [hoffer, ih h]
        _ = (inbox ++ p :: rest).take capacity := by
          rw [List.take_append_of_le_length (Nat.le_of_eq hfull.symm),
            List.take_append_of_le_length (Nat.le_of_eq hfull.symm)]

theorem mem_offerAll {payloads : List Bytes} {inbox : Inbox} {p : Bytes}
    (h : p ∈ inbox.offerAll payloads) : p ∈ inbox ++ payloads := by
  induction payloads generalizing inbox with
  | nil => exact List.mem_append_left _ h
  | cons q rest ih =>
    rw [List.append_cons]
    have hoffer : inbox.offer q = inbox ++ [q] ∨ inbox.offer q = inbox := by
      unfold offer
      split
      · exact .inl rfl
      · exact .inr rfl
    have hmem : p ∈ Inbox.offerAll rest (inbox.offer q) := h
    rcases hoffer with hq | hq
    · rw [hq] at hmem
      exact ih hmem
    · rw [hq] at hmem
      rcases List.mem_append.mp (ih hmem) with hp | hp
      · exact List.mem_append_left _ (List.mem_append_left _ hp)
      · exact List.mem_append_right _ hp

/-- What an inbox holds stays where it is when more is offered. -/
theorem prefix_offerAll (payloads : List Bytes) (inbox : Inbox) :
    inbox <+: inbox.offerAll payloads := by
  induction payloads generalizing inbox with
  | nil => exact List.prefix_refl _
  | cons p rest ih =>
    refine List.IsPrefix.trans ?_ (ih (inbox.offer p))
    unfold offer
    split
    · exact List.prefix_append _ _
    · exact List.prefix_refl _

end Inbox

/-! ### All listeners -/

namespace Listeners

@[simp] theorem offerAll_nil (l : Listeners) : l.offerAll [] = l := rfl

@[simp] theorem offerAll_cons (pub : Publication) (pubs : List Publication) (l : Listeners) :
    l.offerAll (pub :: pubs) = (l.offer pub.key pub.payload).offerAll pubs := rfl

@[simp] theorem holds_offerAll {pubs : List Publication} {l : Listeners} {id : ListenerId} :
    (l.offerAll pubs).Holds id ↔ l.Holds id := by
  induction pubs generalizing l with
  | nil => exact Iff.rfl
  | cons pub pubs ih => rw [offerAll_cons, ih, holds_offer]

@[simp] theorem registry_offerAll (pubs : List Publication) (l : Listeners) :
    (l.offerAll pubs).registry = l.registry := by
  induction pubs generalizing l with
  | nil => rfl
  | cons pub pubs ih => rw [offerAll_cons, ih]; rfl

@[simp] theorem next_offerAll (pubs : List Publication) (l : Listeners) :
    (l.offerAll pubs).next = l.next := by
  induction pubs generalizing l with
  | nil => rfl
  | cons pub pubs ih => rw [offerAll_cons, ih]; rfl

theorem InOrder.offerAll {l : Listeners} (h : l.InOrder) (pubs : List Publication) :
    (l.offerAll pubs).InOrder := by
  induction pubs generalizing l with
  | nil => exact h
  | cons pub pubs ih => exact ih (h.offer pub.key pub.payload)

/-- A registered listener is offered what is on its key, and nothing else. -/
theorem inbox_offerAll {l : Listeners} (h : l.InOrder) {key : Key} {id : ListenerId}
    (hid : id ∈ l.registry.on key) (pubs : List Publication) :
    (l.offerAll pubs).inbox id = (l.inbox id).offerAll (payloadsOn key pubs) := by
  induction pubs generalizing l with
  | nil => rfl
  | cons pub pubs ih =>
    have hoffer := inbox_offer (h.holds_of_on key id hid) pub.key pub.payload
    rw [offerAll_cons, ih (h.offer _ _) hid, hoffer]
    by_cases hk : pub.key = key
    · subst hk
      simp [payloadsOn, Inbox.offerAll, hid]
    · have hnot : id ∉ l.registry.on pub.key := fun hmem => hk (h.on_unique _ _ _ hmem hid)
      simp [payloadsOn, hk, hnot]

/-- A listener that is not registered is offered nothing. -/
theorem inbox_offerAll_of_not_on {l : Listeners} {id : ListenerId}
    (hid : ∀ key, id ∉ l.registry.on key) (hh : l.Holds id) (pubs : List Publication) :
    (l.offerAll pubs).inbox id = l.inbox id := by
  induction pubs generalizing l with
  | nil => rfl
  | cons pub pubs ih =>
    have hid' : ∀ key, id ∉ (l.offer pub.key pub.payload).registry.on key := hid
    rw [offerAll_cons, ih hid' (holds_offer.mpr hh), inbox_offer hh, if_neg (hid pub.key)]

end Listeners

end Roaming
