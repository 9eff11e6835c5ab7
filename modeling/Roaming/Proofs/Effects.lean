import Roaming.Proofs.Aside
import Roaming.Proofs.Publications

/-!
# Effects on listeners

Whatever happens to the listeners of a hub or of a station is one change of them
(`World.onListeners`): payloads are offered, a listener comes or goes, all are struck out.
Apart from that change what happens is aside of the exchanges, and whoever sees something new
is woken (`World.Leads`).
-/

set_option autoImplicit false
set_option relaxedAutoImplicit false

namespace Roaming.Simulation

open Roaming.Text (Bytes)

namespace World

/-- Changes the listeners of the hub or of a station. -/
def onListeners (place : Option Nat) (f : Listeners → Listeners) (w : World) : World :=
  match place with
  | none => { w with hub := f w.hub }
  | some i => { w with
      stations := w.stations.modify i fun s =>
        { s with link := { s.link with listeners := f s.link.listeners } } }

/-- The world after publications on the hub. -/
def offered (pubs : List Publication) (w : World) : World := w.onListeners none (·.offerAll pubs)

/-- The world with one more listener. -/
def enlisted (place : Option Nat) (key : Key) (w : World) : World :=
  w.onListeners place (·.add key)

/-- The world after the hub has been closed. -/
def disconnected (w : World) : World := w.onListeners none (·.disconnect)

/-- The world without a listener. -/
def without (sub : Subscription) (w : World) : World :=
  match sub.seat? with
  | some (place, id) => w.onListeners place (·.release sub.key id)
  | none => w

/-- The world after a payload was taken out of the inbox of a listener. -/
def taken (sub : Subscription) (w : World) : World :=
  match sub.seat? with
  | some (place, id) => w.onListeners place (·.take id)
  | none => w

/-- Whether `w'` is `w` after the exchanges were brought to where they are in `W`, and whoever is
still there sees the same as before or was woken. -/
structure Leads (w W w' : World) : Prop where
  alike : W.Alike w'
  ready : ∀ r ∈ w.ready, r ∈ w'.ready
  heeds : ∀ u ∈ w.tasks, u.id ∈ w'.tasks.map (·.id) → w.Heeds u w'

/-! ### What a change of listeners leaves alone -/

section OnListeners

variable (place : Option Nat) (f : Listeners → Listeners) (w : World)

@[simp] theorem now_onListeners : (w.onListeners place f).now = w.now := by cases place <;> rfl

@[simp] theorem tasks_onListeners :
    (w.onListeners place f).tasks = w.tasks := by cases place <;> rfl

@[simp] theorem couriers_onListeners : (w.onListeners place f).couriers = w.couriers := by
  cases place <;> rfl

@[simp] theorem nextId_onListeners : (w.onListeners place f).nextId = w.nextId := by
  cases place <;> rfl

@[simp] theorem ended_onListeners :
    (w.onListeners place f).ended = w.ended := by cases place <;> rfl

@[simp] theorem peers_onListeners :
    (w.onListeners place f).peers = w.peers := by cases place <;> rfl

@[simp] theorem alarms_onListeners : (w.onListeners place f).alarms = w.alarms := by
  cases place <;> rfl

@[simp] theorem ready_onListeners :
    (w.onListeners place f).ready = w.ready := by cases place <;> rfl

@[simp] theorem places_onListeners :
    (w.onListeners place f).stations.length = w.stations.length := by
  cases place <;> simp [onListeners]

/-- Whether `w'` differs from `w` in its listeners at most. -/
structure ListenersOnly (w w' : World) : Prop where
  places : w'.stations.length = w.stations.length
  now : w'.now = w.now
  tasks : w'.tasks = w.tasks
  couriers : w'.couriers = w.couriers
  nextId : w'.nextId = w.nextId
  ended : w'.ended = w.ended
  peers : w'.peers = w.peers
  alarms : w'.alarms = w.alarms
  ready : w'.ready = w.ready

theorem ListenersOnly.refl : w.ListenersOnly w := ⟨rfl, rfl, rfl, rfl, rfl, rfl, rfl, rfl, rfl⟩

theorem listenersOnly_onListeners : w.ListenersOnly (w.onListeners place f) := by
  constructor <;> simp

theorem listenersOnly_without (sub : Subscription) : w.ListenersOnly (w.without sub) := by
  unfold without
  split
  · exact listenersOnly_onListeners _ _ w
  · exact .refl w

theorem listenersOnly_taken (sub : Subscription) : w.ListenersOnly (w.taken sub) := by
  unfold taken
  split
  · exact listenersOnly_onListeners _ _ w
  · exact .refl w

theorem listenersAt_onListeners (place' : Option Nat) :
    (w.onListeners place f).listenersAt place' =
      if place' = place then (w.listenersAt place').map f else w.listenersAt place' := by
  cases place with
  | none => cases place' <;> rfl
  | some i =>
    cases place' with
    | none => rfl
    | some j =>
      simp only [listenersAt, onListeners, List.getElem?_modify, Option.some.injEq]
      by_cases hij : i = j
      · subst hij
        cases w.stations[i]? <;> simp
      · cases w.stations[j]? <;> simp [hij, Ne.symm hij]

theorem callOutcome?_onListeners (i : Nat) (call : Redis.CallId) :
    (w.onListeners place f).callOutcome? i call = w.callOutcome? i call := by
  cases place with
  | none => rfl
  | some j =>
    simp only [callOutcome?, onListeners, List.getElem?_modify]
    by_cases hij : j = i
    · subst hij
      cases w.stations[j]? <;> simp [Redis.Link.outcome?]
    · cases w.stations[i]? <;> simp [hij]

end OnListeners

theorem sight_eq {w : World} {sub : Subscription} {place : Option Nat} {id : ListenerId}
    {l : Listeners} (hseat : sub.seat? = some (place, id)) (hl : w.listenersAt place = some l) :
    w.sight sub = l.sight id := by
  cases sub with
  | hub key i =>
    obtain ⟨rfl, rfl⟩ := Prod.mk.inj (Option.some.inj hseat)
    cases hl
    rfl
  | puppet name key script => cases hseat
  | link j key i =>
    obtain ⟨rfl, rfl⟩ := Prod.mk.inj (Option.some.inj hseat)
    obtain ⟨s, hs, rfl⟩ := Option.map_eq_some_iff.mp hl
    simp only [sight, hs]

/-- A listener at another seat shows what it has shown. -/
theorem sight_onListeners {w : World} {sub : Subscription} {place : Option Nat}
    {f : Listeners → Listeners}
    (hf : ∀ l id, sub.seat? = some (place, id) → w.listenersAt place = some l →
      (f l).sight id = l.sight id) :
    (w.onListeners place f).sight sub = w.sight sub := by
  cases hseat : sub.seat? with
  | none => cases sub <;> simp_all [Subscription.seat?, sight]
  | some seat =>
    obtain ⟨place', id⟩ := seat
    cases hl : w.listenersAt place' with
    | none =>
      cases sub with
      | hub key i =>
        obtain ⟨rfl, rfl⟩ := Prod.mk.inj (Option.some.inj hseat)
        cases hl
      | puppet name key script => cases hseat
      | link j key i =>
        obtain ⟨rfl, rfl⟩ := Prod.mk.inj (Option.some.inj hseat)
        have hl' := listenersAt_onListeners place f w (some j)
        rw [hl, Option.map_none, ite_self] at hl'
        have hs := Option.map_eq_none_iff.mp hl
        have hs' := Option.map_eq_none_iff.mp hl'
        simp only [sight, hs, hs']
    | some l =>
      have hl' := listenersAt_onListeners place f w place'
      rw [hl] at hl'
      by_cases hp : place' = place
      · subst hp
        rw [if_pos rfl, Option.map_some] at hl'
        rw [sight_eq hseat hl', sight_eq hseat hl, hf l id hseat hl]
      · rw [if_neg hp] at hl'
        rw [sight_eq hseat hl', sight_eq hseat hl]

theorem holds_onListeners {w : World} {place : Option Nat} {f : Listeners → Listeners} {seat : Seat}
    (hf : ∀ l, seat.1 = place → w.listenersAt place = some l → l.Holds seat.2 → (f l).Holds seat.2)
    (h : w.Holds seat) : (w.onListeners place f).Holds seat := by
  obtain ⟨l, hl, hid⟩ := h
  have hl' := listenersAt_onListeners place f w seat.1
  by_cases hp : seat.1 = place
  · rw [if_pos hp, hl, Option.map_some] at hl'
    exact ⟨f l, hl', hf l hp (hp ▸ hl) hid⟩
  · rw [if_neg hp, hl] at hl'
    exact ⟨l, hl', hid⟩

theorem Alike.onListeners {w w' : World} (h : w.Alike w') (place : Option Nat)
    {f : Listeners → Listeners}
    (hf : place ≠ none → ∀ l l' : Listeners, l.Extends l' → (f l).Extends (f l')) :
    (w.onListeners place f).Alike (w'.onListeners place f) := by
  cases place with
  | none => exact { h with hub := congrArg f h.hub }
  | some i =>
    refine { h with places := ?_, stations := fun j s hs => ?_ }
    · simp only [World.onListeners, List.length_modify, h.places]
    simp only [World.onListeners, List.getElem?_modify] at hs ⊢
    obtain ⟨s₀, hs₀, rfl⟩ := Option.map_eq_some_iff.mp hs
    obtain ⟨s', hs', he⟩ := h.stations j s₀ hs₀
    refine ⟨_, by rw [hs']; rfl, ?_⟩
    by_cases hij : i = j
    · have hlisteners := hf (Option.some_ne_none i) _ _ he.listeners
      simpa only [if_pos hij] using ⟨hlisteners, he.onward.withListeners _ _⟩
    · simpa only [if_neg hij] using he

/-! ### Changes one after the other -/

theorem Leads.of_aside {w w' : World} (h : w.Aside w') : w.Leads w w' :=
  ⟨h.toAlike, h.ready, fun u hu _ => h.woken u hu⟩

theorem Leads.refl (w : World) : w.Leads w w := .of_aside (.refl w)

/-- What is aside of the exchanges can come before. -/
theorem Leads.after_aside {w w₁ w₂ W W₁ : World} (h : w.Aside w₁) (h' : w₁.Leads W₁ w₂)
    (hW : W.Alike W₁) : w.Leads W w₂ where
  alike := hW.trans h'.alike
  ready r hr := h'.ready r (h.ready r hr)
  heeds u hu hstays := by
    have hu₁ : u ∈ w₁.tasks := h.tasks ▸ hu
    exact (h.woken u hu).trans (h'.heeds u hu₁ hstays) (fun _ => h.holds) h.tasks h'.ready

/-- What is aside of the exchanges can come after, while all that listened still do. -/
theorem Leads.then_aside {w w₁ w₂ W : World} (h : w.Leads W w₁) (h' : w₁.Aside w₂)
    (htasks : w₁.tasks = w.tasks) (hholds : ∀ seat, w.Holds seat → w₁.Holds seat) :
    w.Leads W w₂ where
  alike := h.alike.trans h'.toAlike
  ready r hr := h'.ready r (h.ready r hr)
  heeds u hu hstays := by
    have hstays₁ : u.id ∈ w₁.tasks.map (·.id) := by rw [← h'.tasks]; exact hstays
    have hu₁ : u ∈ w₁.tasks := by rw [htasks]; exact hu
    exact (h.heeds u hu hstays₁).trans (h'.woken u hu₁) hholds htasks h'.ready

theorem Leads.trans {w w₁ w₂ W₁ W₂ W : World} (h : w.Leads W₁ w₁) (h' : w₁.Leads W₂ w₂)
    (hW : W.Alike W₂) (htasks : w₁.tasks = w.tasks)
    (hholds : ∀ seat, w.Holds seat → w₁.Holds seat) (htasks' : w₂.tasks = w₁.tasks) :
    w.Leads W w₂ where
  alike := hW.trans h'.alike
  ready r hr := h'.ready r (h.ready r hr)
  heeds u hu hstays := by
    have hstays₁ : u.id ∈ w₁.tasks.map (·.id) := by rw [← htasks']; exact hstays
    have hu₁ : u ∈ w₁.tasks := by rw [htasks]; exact hu
    exact (h.heeds u hu hstays₁).trans (h'.heeds u hu₁ hstays) hholds htasks h'.ready

theorem Leads.wake {w w' W : World} (h : w.Leads W w') (r : Runnable) : w.Leads W (w'.wake r) where
  alike := h.alike.trans (aside_wake r w').toAlike
  ready r' hr := (aside_wake r w').ready r' (h.ready r' hr)
  heeds u hu hstays := by
    have hstays' : u.id ∈ w'.tasks.map (·.id) := by
      rw [← (aside_wake r w').tasks]
      exact hstays
    exact (h.heeds u hu hstays').then_same (aside_wake r w').hub (stations_wake r w')
      (aside_wake r w').ready

theorem Leads.wakeAll {w w' W : World} (h : w.Leads W w') (rs : List Runnable) :
    w.Leads W (w'.wakeAll rs) := by
  induction rs generalizing w' with
  | nil => exact h
  | cons r rest ih => exact ih (h.wake r)

/-! ### Publishing on the hub -/

@[simp] theorem offered_nil (w : World) : w.offered [] = w := rfl

theorem holds_offered {pubs : List Publication} {w : World} {seat : Seat} (h : w.Holds seat) :
    (w.offered pubs).Holds seat :=
  holds_onListeners (fun _ _ _ hid => Listeners.holds_offerAll.mpr hid) h

theorem Alike.offered {w w' : World} (h : w.Alike w') (pubs : List Publication) :
    (w.offered pubs).Alike (w'.offered pubs) :=
  h.onListeners none fun hne => absurd rfl hne

theorem alike_publishOnHub (key : Key) (payload : Bytes) (w : World) :
    (w.offered [⟨key, payload⟩]).Alike (w.publishOnHub key payload) :=
  ((aside_report _ _).trans (aside_wakeAll _ _)).toAlike

theorem leads_publishOnHub (key : Key) (payload : Bytes) (w : World) :
    w.Leads (w.offered [⟨key, payload⟩]) (w.publishOnHub key payload) := by
  refine ⟨w.alike_publishOnHub key payload, (w.alike_publishOnHub key payload).ready, ?_⟩
  refine fun u hu _ => ⟨fun v hst hown => ?_, hears_of_stations (stations_wakeAll _ _)⟩
  have hsight : (w.publishOnHub key payload).sight v.subscription =
      (w.offered [⟨key, payload⟩]).sight v.subscription := by
    refine (sight_wakeAll _ _ _).trans ?_
    cases v.subscription <;> rfl
  rw [hsight]
  by_cases hreached : ∃ id, v.subscription.seat? = some (none, id) ∧
      id ∈ w.hub.registry.on key ∧ (w.hub.inbox id).hasRoom
  · -- The listener gets the payload, and is among those who are woken.
    right
    obtain ⟨id, hseat, hon, hroom⟩ := hreached
    refine mem_ready_wakeAll ?_ _
    refine mem_waiters (w := w) hu hst hseat (hown _ hseat).2 ?_
    simp [Listeners.full, hon, hroom]
  · left
    refine sight_onListeners fun l id hseat hl => ?_
    obtain ⟨l', hl', hid⟩ := (hown _ hseat).1
    rw [hl, Option.some.injEq] at hl'
    subst hl'
    cases hl
    have hinbox : (w.hub.offer key payload).inbox id = w.hub.inbox id := by
      rw [Listeners.inbox_offer hid]
      split
      · rename_i hon
        rw [Inbox.offer, if_neg fun hroom => hreached ⟨id, hseat, hon, hroom⟩]
      · rfl
    have hopen : (w.hub.offer key payload).isOpen id = w.hub.isOpen id := rfl
    simp only [Listeners.offerAll_cons, Listeners.offerAll_nil, Listeners.sight, hinbox, hopen]

/-- Publications in order, each as one. -/
theorem leads_publishAll (pubs : List Publication) (w : World) :
    w.Leads (w.offered pubs) (pubs.foldl (fun w pub => w.publishOnHub pub.key pub.payload) w) := by
  induction pubs generalizing w with
  | nil => exact .refl w
  | cons pub pubs ih =>
    have hfirst := w.leads_publishOnHub pub.key pub.payload
    have hrest := ih (w.publishOnHub pub.key pub.payload)
    have hW : (w.offered (pub :: pubs)).Alike ((w.publishOnHub pub.key pub.payload).offered pubs) :=
      hfirst.alike.offered pubs
    have htasks : (w.publishOnHub pub.key pub.payload).tasks = w.tasks := hfirst.alike.tasks
    refine hfirst.trans hrest hW htasks (fun seat hs => hfirst.alike.holds (holds_offered hs)) ?_
    exact hrest.alike.tasks.trans (tasks_onListeners _ _ _)

/-! ### Closing the hub -/

theorem leads_closeHub (w : World) : w.Leads w.disconnected w.closeHub := by
  have halike : w.disconnected.Alike w.closeHub :=
    ((aside_report _ _).trans (aside_wakeAll _ _)).toAlike
  refine ⟨halike, halike.ready, ?_⟩
  refine fun u hu _ => ⟨fun v hst hown => ?_, hears_of_stations (stations_wakeAll _ _)⟩
  have hsight : w.closeHub.sight v.subscription = w.disconnected.sight v.subscription := by
    refine (sight_wakeAll _ _ _).trans ?_
    cases v.subscription <;> rfl
  rw [hsight]
  by_cases hopen : ∃ id, v.subscription.seat? = some (none, id) ∧ id ∈ w.hub.registry.ids
  · obtain ⟨id, hseat, hid⟩ := hopen
    exact .inr (mem_ready_wakeAll (mem_waiters (w := w) hu hst hseat (hown _ hseat).2 hid) _)
  · left
    refine sight_onListeners fun l id hseat hl => ?_
    cases hl
    exact Listeners.sight_disconnect fun hid => hopen ⟨id, hseat, hid⟩

/-! ### The release of a listener -/

theorem Alike.without {w w' : World} (h : w.Alike w') (sub : Subscription) :
    (w.without sub).Alike (w'.without sub) := by
  unfold World.without
  split
  · refine h.onListeners _ fun _ l l' he =>
      ⟨he.next_le, fun i hi => ?_, fun i hlt hi => ?_, fun i hi => ?_⟩
    · obtain ⟨hi, hne⟩ := Listeners.holds_release.mp hi
      exact Listeners.holds_release.mpr ⟨he.holds i hi, hne⟩
    · obtain ⟨hi, hne⟩ := Listeners.holds_release.mp hi
      exact Listeners.holds_release.mpr ⟨he.held i hlt hi, hne⟩
    · obtain ⟨hi, hne⟩ := Listeners.holds_release.mp hi
      rw [Listeners.inbox_release hne, Listeners.inbox_release hne]
      exact he.inbox i hi
  · exact h

theorem modify_eq_set {s : Station} {stations : List Station} {i : Nat}
    (hs : stations[i]? = some s) (f : Station → Station) :
    stations.modify i f = stations.set i (f s) := by
  refine List.ext_getElem? fun j => ?_
  rw [List.getElem?_modify]
  by_cases hij : i = j
  · subst hij
    rw [List.getElem?_set_self (List.getElem?_eq_some_iff.mp hs).1, hs]
    simp
  · rw [List.getElem?_set_ne hij]
    simp [hij]

/-- What is done on a link from outside changes its listeners, and is aside of the
exchanges else. -/
theorem alike_onLink {f : Redis.Link → Redis.Link × Log} {g : Listeners → Listeners}
    (hf : ∀ l : Redis.Link, (f l).1.listeners = g l.listeners)
    (hon : ∀ l : Redis.Link, l.Onward (f l).1) (i : Nat) (w : World) :
    (w.onListeners (some i) g).Alike (w.onLink i f) := by
  unfold onLink
  split
  · rename_i hs
    have hsame : w.onListeners (some i) g = w := by
      rw [onListeners, List.modify_eq_self (List.getElem?_eq_none_iff.mp hs)]
    rw [hsame]
    exact .refl w
  · rename_i s hs
    refine Alike.trans ?_ ((alike_putStation i { s with link := (f s.link).1 } (f s.link).2 w).trans
      (aside_wake _ _).toAlike)
    rw [onListeners, modify_eq_set hs]
    refine { Alike.refl _ with
      places := List.length_set.trans List.length_set.symm, stations := fun j u hu => ?_ }
    have hi : i < w.stations.length := (List.getElem?_eq_some_iff.mp hs).1
    by_cases hij : i = j
    · subst hij
      have hu' := (List.getElem?_set_self hi).symm.trans hu
      obtain rfl := Option.some.inj hu'
      refine ⟨_, List.getElem?_set_self hi, .of_eq (hf s.link), ?_⟩
      exact (hon s.link).withListeners (g s.link.listeners) (f s.link).1.listeners
    · rw [List.getElem?_set_ne hij] at hu ⊢
      exact ⟨u, hu, .refl _⟩

theorem heeds_onLink {f : Redis.Link → Redis.Link × Log} {i : Nat} {w : World} {u : Task}
    (hu : u ∈ w.tasks)
    (hf : ∀ v id, u.stage = .watching v → v.subscription.seat? = some (some i, id) →
      w.SoleOwner (some i, id) u.id →
      ∀ l : Redis.Link, l.listeners.Holds id → (f l).1.listeners.Holds id) :
    w.Heeds u (w.onLink i f) := by
  unfold onLink
  split
  · exact .refl w u
  · rename_i s hs
    have hput := heeds_putStation hs { s with link := (f s.link).1 } (f s.link).2 hu
      fun v id hst hseat hid hsole => hf v id hst hseat hsole s.link hid
    exact hput.then_same (aside_wake _ _).hub (stations_wake _ _) (aside_wake _ _).ready

theorem alike_release (sub : Subscription) (w : World) : (w.without sub).Alike (w.release sub) := by
  cases sub with
  | hub key id =>
    have hreport := (aside_report [.debug s!"memory: release {key} (id {id})"]
      (w.without (.hub key id))).toAlike
    change (w.without (.hub key id)).Alike (w.releaseOnHub key id)
    unfold releaseOnHub
    dsimp only
    split
    · exact hreport
    · exact .refl _
  | puppet name key script =>
    change w.Alike (if script.announces then w.record (.release name key) else w)
    split
    · exact (aside_record _ w).toAlike
    · exact .refl w
  | link i key id =>
    exact alike_onLink (Redis.Link.listeners_release key id) (Redis.Link.onward_release key id) i w

/-- The release of a listener is no matter to those who have another. -/
theorem heeds_release {sub : Subscription} {w : World} (hhub : w.hub.InOrder)
    (hkey : ∀ key id, sub = .hub key id → ∀ k, id ∈ w.hub.registry.on k → k = key) {u : Task}
    (hu : u ∈ w.tasks)
    (hother : ∀ v seat, u.stage = .watching v → v.subscription.seat? = some seat →
      w.SoleOwner seat u.id → sub.seat? ≠ some seat) : w.Heeds u (w.release sub) := by
  cases sub with
  | hub key id =>
    have hstations : (w.release (.hub key id)).stations = w.stations := by
      change (w.releaseOnHub key id).stations = _
      unfold releaseOnHub
      dsimp only
      split <;> rfl
    refine ⟨fun v hst hown => .inl ?_, hears_of_stations hstations⟩
    have hsight : (w.release (.hub key id)).sight v.subscription =
        (w.without (.hub key id)).sight v.subscription :=
      sight_of_links (alike_release (.hub key id) w).hub (fun _ => by rw [hstations]; rfl) _
    rw [hsight]
    change (w.onListeners none (·.release key id)).sight v.subscription = w.sight v.subscription
    refine sight_onListeners fun l i hseat hl => ?_
    cases hl
    have hi : i ≠ id := by
      rintro rfl
      exact hother v _ hst hseat (hown _ hseat).2 rfl
    exact Listeners.sight_release hhub hi (hkey key id rfl)
  | puppet name key script =>
    have hrelease : w.release (.puppet name key script) =
        if script.announces then w.record (.release name key) else w := rfl
    rw [hrelease]
    split
    · exact (aside_record _ w).woken u hu
    · exact .refl w u
  | link i key id =>
    change w.Heeds u (w.onLink i (·.release key id))
    refine heeds_onLink hu fun v j hst hseat hsole l hid => ?_
    rw [Redis.Link.listeners_release]
    refine Listeners.holds_release.mpr ⟨hid, ?_⟩
    rintro rfl
    exact hother v _ hst hseat hsole rfl

theorem ready_release (sub : Subscription) (w : World) :
    ∀ r ∈ w.ready, r ∈ (w.release sub).ready := by
  intro r hr
  refine (alike_release sub w).ready r ?_
  unfold without
  split
  · rw [ready_onListeners]
    exact hr
  · exact hr

/-! ### New listeners -/

theorem leads_subscribeHub {w : World} (hhub : w.hub.InOrder) (key : Key) (lines : Log) :
    w.Leads (w.enlisted none key) (report lines { w with hub := w.hub.add key }) := by
  have halike : (w.enlisted none key).Alike (report lines { w with hub := w.hub.add key }) :=
    (aside_report lines (w.enlisted none key)).toAlike
  refine ⟨halike, halike.ready, fun u _ _ => ⟨fun v hst hown => .inl ?_, hears_of_stations rfl⟩⟩
  have hsight : World.sight v.subscription (report lines { w with hub := w.hub.add key }) =
      (w.enlisted none key).sight v.subscription := by
    cases v.subscription <;> rfl
  rw [hsight]
  refine sight_onListeners fun l id hseat hl => ?_
  obtain ⟨l', hl', hid⟩ := (hown _ hseat).1
  cases hl
  cases hl'
  exact Listeners.sight_add hhub hid key

theorem leads_subscribeLink (i : Nat) (key : Key) (w : World) :
    w.Leads (w.enlisted (some i) key) (w.onLink i fun l => (l.subscribe key, [])) := by
  have halike : (w.enlisted (some i) key).Alike (w.onLink i fun l => (l.subscribe key, [])) :=
    alike_onLink (fun l => l.listeners_subscribe key) (Redis.Link.onward_subscribe key) i w
  refine ⟨halike, fun r hr => halike.ready r (by simpa [enlisted] using hr), fun u hu _ => ?_⟩
  refine heeds_onLink hu fun _ _ _ _ _ l hid => ?_
  rw [Redis.Link.listeners_subscribe]
  exact Listeners.holds_add.mpr (.inl hid)

/-! ### Reading an inbox -/

theorem takeFrom_eq (sub : Subscription) (w : World) : w.takeFrom sub = w.taken sub := by
  cases sub with
  | hub key id => rfl
  | puppet name key script => rfl
  | link i key id =>
    change _ = w.onListeners (some i) (·.take id)
    unfold takeFrom
    dsimp only
    split
    · rename_i hs
      rw [onListeners, List.modify_eq_self (List.getElem?_eq_none_iff.mp hs)]
    · rename_i s hs
      rw [onListeners, modify_eq_set hs]

theorem callOutcome?_taken (sub : Subscription) (w : World) (i : Nat) (call : Redis.CallId) :
    (w.taken sub).callOutcome? i call = w.callOutcome? i call := by
  unfold taken
  split
  · exact callOutcome?_onListeners _ _ w i call
  · rfl

theorem sight_taken {sub sub' : Subscription} {w : World}
    (hother : ∀ seat, sub'.seat? = some seat → sub.seat? ≠ some seat) :
    (w.taken sub).sight sub' = w.sight sub' := by
  unfold taken
  split
  · rename_i place id hseat
    refine sight_onListeners fun l i hseat' _ => Listeners.sight_take ?_
    rintro rfl
    exact hother _ hseat' hseat
  · rfl

end World

end Roaming.Simulation
