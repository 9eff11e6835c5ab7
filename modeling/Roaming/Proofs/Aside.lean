import Roaming.Proofs.Commands
import Roaming.Simulation.Run

/-!
# What happens aside of the exchanges

Agents, stations and the broker work without touching the clock, the hub, the tasks and their POSTs
(`World.Aside`). What they change are links. A task that watches a listener of a link is woken when
its inbox shows something else, and one that waits for its listener when its call has come to an
outcome (`World.Heeds`).
-/

set_option autoImplicit false
set_option relaxedAutoImplicit false

namespace Roaming.Simulation

open Roaming.Text (Bytes)
open Roaming.Redis (CallId)

/-! ### Seats -/

/-- The key that a listener listens on. -/
def Subscription.key : Subscription → Key
  | .hub key _ => key
  | .puppet _ key _ => key
  | .link _ key _ => key

/-- The listener that a task has. -/
def Task.subscription? (t : Task) : Option Subscription :=
  match t.stage with
  | .subscribing _ i _ listener => t.job.errand?.map fun e => .link i e.key listener
  | .armed _ subscription => some subscription
  | .watching v => some v.subscription
  | _ => none

/-- The seat of the listener that a task has. -/
def Task.seat? (t : Task) : Option Seat := t.subscription?.bind (·.seat?)

namespace World

/-- The listeners of a hub or of a station. -/
def listenersAt (place : Option Nat) (w : World) : Option Listeners :=
  match place with
  | none => some w.hub
  | some i => (w.stations[i]?).map (·.link.listeners)

/-- Whether there is an inbox at a seat. -/
def Holds (w : World) (seat : Seat) : Prop :=
  ∃ l, w.listenersAt seat.1 = some l ∧ l.Holds seat.2

/-- Whether nobody but the task `id` has a listener at a seat. -/
def SoleOwner (w : World) (seat : Seat) (id : WorkId) : Prop :=
  ∀ u ∈ w.tasks, u.seat? = some seat → u.id = id

/-- The outcome of a call on a link, once it is there. -/
def callOutcome? (i : Nat) (call : CallId) (w : World) : Option (Except Failure Unit) :=
  (w.stations[i]?).bind (·.link.outcome? call)

/-- Whether a task was woken if there is something new for it in `w'`: in the inbox that it watches,
which is its own, or about the call for its listener. -/
structure Heeds (w : World) (t : Task) (w' : World) : Prop where
  sees : ∀ v, t.stage = .watching v →
    (∀ seat, v.subscription.seat? = some seat → w.Holds seat ∧ w.SoleOwner seat t.id) →
    w'.sight v.subscription = w.sight v.subscription ∨ .task t.id ∈ w'.ready
  hears : ∀ route i call listener, t.stage = .subscribing route i call listener →
    w'.callOutcome? i call ≠ none → w.callOutcome? i call ≠ none ∨ .task t.id ∈ w'.ready

/-- Whether two lists of peers differ in the numbers of their POSTs at most. -/
def SamePeers (ps ps' : List Peer) : Prop :=
  ∀ i : Nat, (ps'[i]?).map (fun p => (p.name, p.react, p.outlet)) =
    (ps[i]?).map (fun p => (p.name, p.react, p.outlet))

/-- Whether the exchanges stand in `w'` as they do in `w`: what may differ is who was woken, what
alarms were added, how many POSTs a peer has had, and what arrived over links. -/
structure Alike (w w' : World) : Prop where
  now : w'.now = w.now
  hub : w'.hub = w.hub
  tasks : w'.tasks = w.tasks
  couriers : w'.couriers = w.couriers
  nextId : w'.nextId = w.nextId
  ended : w'.ended = w.ended
  peers : SamePeers w.peers w'.peers
  alarms : ∀ a ∈ w.alarms, a ∈ w'.alarms
  ready : ∀ r ∈ w.ready, r ∈ w'.ready
  places : w'.stations.length = w.stations.length
  stations : ∀ (i : Nat) (s : Station), w.stations[i]? = some s →
    ∃ s' : Station, w'.stations[i]? = some s' ∧ s.link.Extends s'.link

/-- Whether `w'` is `w` after something that does not concern the exchanges, but for those who watch
a link: they were woken if they see something new. -/
structure Aside (w w' : World) : Prop extends Alike w w' where
  woken : ∀ t ∈ w.tasks, w.Heeds t w'

theorem Alike.refl (w : World) : w.Alike w where
  now := rfl
  hub := rfl
  tasks := rfl
  couriers := rfl
  nextId := rfl
  ended := rfl
  peers _ := rfl
  alarms _ h := h
  ready _ h := h
  places := rfl
  stations _ s h := ⟨s, h, .refl _⟩

theorem Alike.trans {w₁ w₂ w₃ : World} (h : w₁.Alike w₂) (h' : w₂.Alike w₃) : w₁.Alike w₃ where
  now := h'.now.trans h.now
  hub := h'.hub.trans h.hub
  tasks := h'.tasks.trans h.tasks
  couriers := h'.couriers.trans h.couriers
  nextId := h'.nextId.trans h.nextId
  ended := h'.ended.trans h.ended
  peers i := (h'.peers i).trans (h.peers i)
  alarms a ha := h'.alarms a (h.alarms a ha)
  ready r hr := h'.ready r (h.ready r hr)
  places := h'.places.trans h.places
  stations i s hs := by
    obtain ⟨s₂, hs₂, he⟩ := h.stations i s hs
    obtain ⟨s₃, hs₃, he'⟩ := h'.stations i s₂ hs₂
    exact ⟨s₃, hs₃, he.trans he'⟩

theorem Alike.holds {w w' : World} (h : w.Alike w') {seat : Seat} (hs : w.Holds seat) :
    w'.Holds seat := by
  obtain ⟨place, id⟩ := seat
  obtain ⟨l, hl, hid⟩ := hs
  cases place with
  | none =>
    simp only [listenersAt, Option.some.injEq] at hl
    subst hl
    exact ⟨w'.hub, rfl, h.hub ▸ hid⟩
  | some i =>
    simp only [listenersAt, Option.map_eq_some_iff] at hl
    obtain ⟨s, hs, rfl⟩ := hl
    obtain ⟨s', hs', he⟩ := h.stations i s hs
    exact ⟨s'.link.listeners, by simp [listenersAt, hs'], he.listeners.holds id hid⟩

theorem sight_of_links {w w' : World} (hhub : w'.hub = w.hub)
    (hlinks : ∀ i : Nat, (w'.stations[i]?).map (fun s : Station => s.link) =
      (w.stations[i]?).map (fun s : Station => s.link)) (sub : Subscription) :
    w'.sight sub = w.sight sub := by
  cases sub with
  | hub key id => simp only [sight, hhub]
  | puppet name key script => rfl
  | link i key id =>
    have h := hlinks i
    simp only [sight]
    cases hs : w.stations[i]? <;> cases hs' : w'.stations[i]? <;> simp_all

/-- Calls come to an outcome on their link alone. -/
theorem hears_of_stations {w w' : World} {t : Task} (hstations : w'.stations = w.stations)
    (route : AnswerRoute Medium) (i : Nat) (call : CallId) (listener : ListenerId)
    (_ : t.stage = .subscribing route i call listener) (ho : w'.callOutcome? i call ≠ none) :
    w.callOutcome? i call ≠ none ∨ .task t.id ∈ w'.ready := by
  rw [callOutcome?, hstations] at ho
  exact .inl ho

/-- There is nothing new while the hub and the links are the same. -/
theorem Heeds.of_links {w w' : World} {t : Task} (hhub : w'.hub = w.hub)
    (hlinks : ∀ i : Nat, (w'.stations[i]?).map (fun s : Station => s.link) =
      (w.stations[i]?).map (fun s : Station => s.link)) : w.Heeds t w' where
  sees v _ _ := .inl (sight_of_links hhub hlinks v.subscription)
  hears route i call listener _ ho := by
    have h := hlinks i
    refine .inl fun hnone => ho ?_
    simp only [callOutcome?] at hnone ⊢
    cases hs : w.stations[i]? <;> cases hs' : w'.stations[i]? <;> simp_all

theorem Heeds.refl (w : World) (t : Task) : w.Heeds t w := .of_links rfl fun _ => rfl

/-- Heeding goes on over a second change if that takes no inbox away before it. -/
theorem Heeds.trans {w₁ w₂ w₃ : World} {t : Task} (h : w₁.Heeds t w₂) (h' : w₂.Heeds t w₃)
    (holds : ∀ seat, w₁.Holds seat → w₂.Holds seat) (tasks : w₂.tasks = w₁.tasks)
    (ready : ∀ r ∈ w₂.ready, r ∈ w₃.ready) : w₁.Heeds t w₃ where
  sees v hst hown := by
    have hown' : ∀ seat, v.subscription.seat? = some seat →
        w₂.Holds seat ∧ w₂.SoleOwner seat t.id := by
      intro seat hseat
      obtain ⟨hholds, hsole⟩ := hown seat hseat
      refine ⟨holds seat hholds, fun u hu => ?_⟩
      rw [tasks] at hu
      exact hsole u hu
    rcases h.sees v hst hown with hsight | hready
    · rcases h'.sees v hst hown' with hsight' | hready'
      · exact .inl (hsight'.trans hsight)
      · exact .inr hready'
    · exact .inr (ready _ hready)
  hears route i call listener hst ho := by
    rcases h'.hears route i call listener hst ho with ho' | hready
    · exact (h.hears route i call listener hst ho').imp_right (ready _)
    · exact .inr hready

/-- What changes after it neither the hub nor the links. -/
theorem Heeds.then_same {w w₁ w₂ : World} {t : Task} (h : w.Heeds t w₁) (hhub : w₂.hub = w₁.hub)
    (hstations : w₂.stations = w₁.stations) (ready : ∀ r ∈ w₁.ready, r ∈ w₂.ready) :
    w.Heeds t w₂ where
  sees v hst hown := by
    refine (h.sees v hst hown).imp (fun hsight => ?_) (ready _)
    rw [← hsight]
    exact sight_of_links hhub (fun _ => by rw [hstations]) _
  hears route i call listener hst ho := by
    refine (h.hears route i call listener hst ?_).imp_right (ready _)
    rwa [callOutcome?, hstations] at ho

theorem Aside.refl (w : World) : w.Aside w :=
  ⟨.refl w, fun t _ => .refl w t⟩

theorem Aside.trans {w₁ w₂ w₃ : World} (h : w₁.Aside w₂) (h' : w₂.Aside w₃) : w₁.Aside w₃ :=
  ⟨h.toAlike.trans h'.toAlike, fun t ht => (h.woken t ht).trans (h'.woken t (h.tasks ▸ ht))
    (fun _ => h.holds) h.tasks h'.ready⟩

/-- What changes neither the exchanges nor a link is aside of the exchanges. -/
private theorem Aside.of_links {w w' : World} (now : w'.now = w.now) (hub : w'.hub = w.hub)
    (peers : w'.peers = w.peers) (tasks : w'.tasks = w.tasks) (couriers : w'.couriers = w.couriers)
    (nextId : w'.nextId = w.nextId) (alarms : w'.alarms = w.alarms) (ended : w'.ended = w.ended)
    (ready : ∀ r ∈ w.ready, r ∈ w'.ready)
    (stations : ∀ i : Nat, (w'.stations[i]?).map (fun s : Station => s.link) =
      (w.stations[i]?).map (fun s : Station => s.link)) : w.Aside w' where
  now := now
  hub := hub
  tasks := tasks
  couriers := couriers
  nextId := nextId
  ended := ended
  peers _ := by rw [peers]
  alarms _ h := alarms ▸ h
  ready := ready
  places := by
    have hlinks : w'.stations.map (·.link) = w.stations.map (·.link) :=
      List.ext_getElem? fun i => by rw [List.getElem?_map, List.getElem?_map, stations i]
    simpa only [List.length_map] using congrArg List.length hlinks
  stations i s hs := by
    have h := stations i
    rw [hs, Option.map_some] at h
    obtain ⟨s', hs', he⟩ := Option.map_eq_some_iff.mp h
    exact ⟨s', hs', he ▸ .refl _⟩
  woken _ _ := .of_links hub stations

/-! ### Reports and the queue -/

theorem aside_report (lines : Log) (w : World) : w.Aside (w.report lines) :=
  .of_links rfl rfl rfl rfl rfl rfl rfl rfl (fun _ h => h) fun _ => rfl

theorem aside_record (e : Event) (w : World) : w.Aside (w.record e) :=
  .of_links rfl rfl rfl rfl rfl rfl rfl rfl (fun _ h => h) fun _ => rfl

theorem mem_ready_wake (r : Runnable) (w : World) : r ∈ (w.wake r).ready := by
  unfold wake
  split
  · assumption
  · simp

theorem aside_wake (r : Runnable) (w : World) : w.Aside (w.wake r) := by
  unfold wake
  split
  · exact .refl w
  · exact .of_links rfl rfl rfl rfl rfl rfl rfl rfl
      (fun _ h => List.mem_append_left _ h) fun _ => rfl

theorem aside_wakeAll (rs : List Runnable) (w : World) : w.Aside (w.wakeAll rs) := by
  induction rs generalizing w with
  | nil => exact .refl w
  | cons r rest ih => exact (w.aside_wake r).trans (ih (w.wake r))

theorem mem_ready_wakeAll {rs : List Runnable} {r : Runnable} (h : r ∈ rs) (w : World) :
    r ∈ (w.wakeAll rs).ready := by
  induction rs generalizing w with
  | nil => simp at h
  | cons first rest ih =>
    rcases List.mem_cons.mp h with rfl | h
    · exact (aside_wakeAll rest _).ready _ (w.mem_ready_wake r)
    · exact ih h _

/-! ### Stations -/

/-- A task that watches a listener is among those who are woken for it. -/
theorem mem_waiters {w : World} {t : Task} (ht : t ∈ w.tasks) {v : Vigil} {place : Option Nat}
    {id : ListenerId} (hst : t.stage = .watching v) (hsub : v.subscription.seat? = some (place, id))
    (howner : w.SoleOwner (place, id) t.id) {ids : List ListenerId} (hid : id ∈ ids) :
    .task t.id ∈ w.waiters place ids := by
  refine List.mem_filterMap.mpr ⟨id, hid, ?_⟩
  cases hf : w.tasks.find? (·.watches (place, id)) with
  | none =>
    have hnot := List.find?_eq_none.mp hf t ht
    simp [Task.watches, hst, hsub] at hnot
  | some u =>
    have hwatches : u.watches (place, id) = true := List.find?_some hf
    have hseat : u.seat? = some (place, id) := by
      unfold Task.watches at hwatches
      split at hwatches
      · rename_i v' hu
        simpa [Task.seat?, Task.subscription?, hu] using hwatches
      · exact absurd hwatches (by decide)
    rw [Option.map_some, howner u (List.mem_of_find?_eq_some hf) hseat]

theorem stations_wake (r : Runnable) (w : World) : (w.wake r).stations = w.stations := by
  unfold wake
  split <;> rfl

theorem stations_wakeAll (rs : List Runnable) (w : World) :
    (w.wakeAll rs).stations = w.stations := by
  induction rs generalizing w with
  | nil => rfl
  | cons r rest ih => exact (ih (w.wake r)).trans (w.stations_wake r)

theorem sight_wakeAll (rs : List Runnable) (w : World) (sub : Subscription) :
    (w.wakeAll rs).sight sub = w.sight sub :=
  sight_of_links (aside_wakeAll rs w).hub (fun _ => by rw [stations_wakeAll]) sub

/-- A task whose call has come to its outcome is woken with the station. -/
theorem hears_putStation {i : Nat} {s : Station} {log : Log} {w : World} {t : Task}
    (ht : t ∈ w.tasks) {route : AnswerRoute Medium} {j : Nat} {call : CallId}
    {listener : ListenerId} (hst : t.stage = .subscribing route j call listener)
    (ho : (w.putStation i s log).callOutcome? j call ≠ none) :
    w.callOutcome? j call ≠ none ∨ .task t.id ∈ (w.putStation i s log).ready := by
  have hstations : (w.putStation i s log).stations = w.stations.set i s := by
    rw [putStation, stations_wakeAll]
    rfl
  rw [callOutcome?, hstations] at ho
  by_cases hij : i = j
  · subst hij
    right
    have hsome : (s.link.outcome? call).isSome := by
      rw [List.getElem?_set, if_pos rfl] at ho
      split at ho
      · exact Option.isSome_iff_ne_none.mpr ho
      · exact absurd rfl ho
    refine mem_ready_wakeAll (List.mem_append_right _ (List.mem_filterMap.mpr ⟨t, ht, ?_⟩)) _
    simp [hst, hsome]
  · rw [List.getElem?_set_ne hij] at ho
    exact .inl ho

/-- A change of a station is heeded by everyone whose listener it still serves. -/
theorem heeds_putStation {w : World} {i : Nat} {s : Station} (hs : w.stations[i]? = some s)
    (s' : Station) (log : Log) {t : Task} (ht : t ∈ w.tasks)
    (hserved : ∀ v id, t.stage = .watching v → v.subscription.seat? = some (some i, id) →
      s.link.listeners.Holds id → w.SoleOwner (some i, id) t.id → s'.link.listeners.Holds id) :
    w.Heeds t (w.putStation i s' log) := by
  have hi : i < w.stations.length := (List.getElem?_eq_some_iff.mp hs).1
  refine ⟨fun v hst hown => ?_, fun _ _ _ _ => hears_putStation ht⟩
  have hsight : (w.putStation i s' log).sight v.subscription =
      World.sight v.subscription { w with stations := w.stations.set i s' } := by
    refine (sight_wakeAll _ _ _).trans ?_
    cases v.subscription <;> rfl
  rw [hsight]
  cases hsub : v.subscription with
  | hub key id => exact .inl rfl
  | puppet name key script => exact .inl rfl
  | link j key id =>
    by_cases hij : i = j
    · subst hij
      have hseat : v.subscription.seat? = some (some i, id) := by rw [hsub]; rfl
      obtain ⟨⟨l, hl, hid⟩, hsole⟩ := hown _ hseat
      rw [listenersAt, hs, Option.map_some, Option.some.injEq] at hl
      subst hl
      exact .inr (mem_ready_wakeAll (List.mem_append_left _
        (mem_waiters (w := w) ht hst hseat hsole (hserved v id hst hseat hid hsole))) _)
    · left
      simp only [sight, List.getElem?_set_ne hij]

theorem alike_putStation (i : Nat) (s' : Station) (log : Log) (w : World) :
    Alike { w with stations := w.stations.set i s' } (w.putStation i s' log) :=
  ((aside_report log _).trans (aside_wakeAll _ _)).toAlike

theorem aside_putStation {w : World} {i : Nat} {s s' : Station} (hs : w.stations[i]? = some s)
    (he : s.link.Extends s'.link) (log : Log) :
    w.Aside (w.putStation i s' log) := by
  have hi : i < w.stations.length := (List.getElem?_eq_some_iff.mp hs).1
  have hset : Alike w { w with stations := w.stations.set i s' } := by
    refine { Alike.refl w with places := List.length_set, stations := fun j u hu => ?_ }
    by_cases hij : i = j
    · subst hij
      rw [hs] at hu
      cases hu
      exact ⟨s', List.getElem?_set_self hi, he⟩
    · exact ⟨u, (List.getElem?_set_ne hij).trans hu, .refl _⟩
  exact ⟨hset.trans (alike_putStation i s' log w),
    fun t ht => heeds_putStation hs s' log ht fun _ id _ _ hid _ => he.listeners.holds id hid⟩

theorem aside_hangUpStopped (i : Nat) (w : World) : w.Aside (w.hangUpStopped i) := by
  unfold hangUpStopped
  split
  · exact .refl w
  · split
    · exact .of_links rfl rfl rfl rfl rfl rfl rfl rfl (fun _ h => h) fun _ => rfl
    · exact .refl w

private theorem aside_modify (i : Nat) (f : Station → Station)
    (hf : ∀ s, (f s).link = s.link) (w : World) :
    w.Aside { w with stations := w.stations.modify i f } := by
  refine .of_links rfl rfl rfl rfl rfl rfl rfl rfl (fun _ h => h) fun j => ?_
  rw [List.getElem?_modify]
  cases w.stations[j]? with
  | none => simp
  | some s =>
    by_cases hij : i = j
    · simp [hij, hf]
    · simp [hij]

theorem aside_bring (sendings : List Sending) (w : World) : w.Aside (w.bring sendings) := by
  unfold bring
  induction sendings generalizing w with
  | nil => exact .refl w
  | cons sending rest ih =>
    refine Aside.trans ?_ (ih _)
    beta_reduce
    split
    · exact .refl w
    · rename_i i _
      exact (aside_modify i (fun s => { s with arrived := s.arrived ++ sending.bytes })
        (fun _ => rfl) w).trans (aside_wake _ _)

theorem aside_publishByBroker (key : Key) (payload : Bytes) (w : World) :
    w.Aside (w.publishByBroker key payload) :=
  w.aside_bring _

theorem aside_transmit (i : Nat) (command : Redis.Command) (w : World) :
    w.Aside (w.transmit i command) := by
  unfold transmit
  split
  · exact .refl w
  · rename_i s hs
    split
    · exact .refl w
    · rename_i line arguments _
      dsimp only
      have hbase : w.Aside (record (.command arguments line)
          { w with broker := (w.broker.execute line arguments).1 }) :=
        .of_links rfl rfl rfl rfl rfl rfl rfl rfl (fun _ h => h) fun _ => rfl
      have hs' : (record (.command arguments line)
          { w with broker := (w.broker.execute line arguments).1 }).stations[i]? = some s := hs
      split
      · have hreceive := s.extends_receive (w.broker.execute line arguments).2.1
        refine hbase.trans (Aside.trans ?_ (aside_bring _ _))
        exact aside_putStation hs' hreceive _
      · exact hbase.trans (aside_bring _ _)

theorem aside_takeCommand (i : Nat) (w : World) : w.Aside (w.takeCommand i) := by
  unfold takeCommand
  split
  · exact .refl w
  · rename_i s hs
    dsimp only
    have hput : ∀ log, w.Aside (w.putStation i { s with link := s.link.take.1.desert.1 } log) :=
      fun log => aside_putStation hs
        (s.link.extends_take.trans s.link.take.1.extends_desert) log
    split
    · exact (hput _).trans (aside_transmit _ _ _)
    · exact hput _

theorem aside_runAgent (i : Nat) (w : World) : w.Aside (w.runAgent i) := by
  unfold runAgent
  split
  · exact .refl w
  · rename_i s hs
    dsimp only
    have h := ((aside_putStation hs s.extends_absorb s.absorb.2).trans
      (aside_takeCommand i _)).trans (aside_hangUpStopped i _)
    split
    · exact h.trans (aside_wake _ _)
    · exact h

theorem aside_onLink {i : Nat} {f : Redis.Link → Redis.Link × Log}
    (hf : ∀ l : Redis.Link, l.Extends (f l).1) (w : World) :
    w.Aside (w.onLink i f) := by
  unfold onLink
  split
  · exact .refl w
  · rename_i s hs
    exact (aside_putStation hs (hf s.link) _).trans (aside_wake _ _)

theorem aside_cut (i : Nat) (w : World) : w.Aside (w.cut i) := by
  unfold cut
  split
  · exact .refl w
  · rename_i s hs
    refine Aside.trans ?_ (aside_wake _ _)
    refine .of_links rfl rfl rfl rfl rfl rfl rfl rfl (fun _ h => h) fun j => ?_
    rw [List.getElem?_set]
    by_cases hij : i = j
    · subst hij
      have hi : i < w.stations.length := (List.getElem?_eq_some_iff.mp hs).1
      rw [if_pos rfl, if_pos hi, hs]
      rfl
    · rw [if_neg hij]

end World

end Roaming.Simulation
