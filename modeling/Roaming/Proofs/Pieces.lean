import Roaming.Proofs.Effects

/-!
# What one piece of a turn comes to

A POST that is moved publishes what its peer replies (`World.carries`) and comes to its next stage
(`World.advanced`). A task that is moved stays and goes to another stage (`Moves`), or it leaves
with an outcome (`Leaves`). These say everything that such a piece does to the exchanges; what else
it does is aside of them.
-/

set_option autoImplicit false
set_option relaxedAutoImplicit false

namespace Roaming.Simulation

open Roaming.Text (Bytes)
open Roaming.Redis (CallId)

namespace World

/-! ### Changes of tasks and POSTs -/

/-- What a POST publishes on the hub if it is moved. -/
def carries (p : Post) (w : World) : List Publication :=
  match w.peers[p.peer]?, p.stage with
  | some peer, .underway due reply =>
    if due ≤ w.now ∧ peer.outlet = .hub then reply.publications else []
  | _, _ => []

/-- A POST after it was moved. -/
def advanced (p : Post) (w : World) : Post :=
  match w.peers[p.peer]?, p.stage with
  | some peer, .unsent =>
    let reply := peer.react peer.posts p.body
    { p with stage := .underway (w.now + reply.delay) reply }
  | some _, .underway due reply =>
    if due ≤ w.now then { p with stage := .ended reply.ending } else p
  | _, _ => p

/-- The world with a POST handed out for a task. -/
def handedOut (waiter : WorkId) (peer : Nat) (body : Bytes) (w : World) : World :=
  { w with
    couriers := w.couriers ++ [⟨w.nextId, waiter, { peer, body }⟩]
    nextId := w.nextId + 1 }

/-- The world after a task has gone, with an outcome if it came to one. -/
def gone (t : Task) (outcome : Option Outcome) (w : World) : World :=
  { w with
    tasks := w.tasks.filter (·.id ≠ t.id)
    ended := w.ended ++ (outcome.map fun o => ⟨t.id, t.name, o⟩).toList }

/-- The world after a task has gone with its listener. -/
def left (t : Task) (outcome : Option Outcome) (w : World) : World :=
  (match t.subscription? with
    | some sub => w.without sub
    | none => w).gone t outcome

/-- Nothing but listeners changes before the task is gone. -/
theorem left_eq (t : Task) (outcome : Option Outcome) (w : World) :
    ∃ w₀, w.ListenersOnly w₀ ∧ w.left t outcome = w₀.gone t outcome := by
  unfold left
  split
  · exact ⟨_, listenersOnly_without w _, rfl⟩
  · exact ⟨w, .refl w, rfl⟩

end World

/-- What a task gains when it goes to another stage. -/
inductive Gain where
  | nothing
  | listener (place : Option Nat) (key : Key)
  /-- A POST is handed out, and an alarm may be set. -/
  | courier (peer : Nat) (body : Bytes) (alarm : Option Nat)

namespace World

/-- The world with what a task has gained. -/
def gained (id : WorkId) (gain : Gain) (w : World) : World :=
  match gain with
  | .nothing => w
  | .listener place key => w.enlisted place key
  | .courier peer body none => w.handedOut id peer body
  | .courier peer body (some due) => (w.handedOut id peer body).setAlarm due (.task id)

/-- The end of what a task waits for in sync mode. -/
def replied (t : Task) (key : Key) (courier : WorkId) (w : World) : Option (Except Failure Bytes) :=
  (Reply.poll key {
    inbox := .empty
    sent := w.ending? courier
    expired := false
    cancelled := t.cancellation == .done }).1

end World

/-- The POST that a task makes itself. -/
def Task.push? (t : Task) : Option Post :=
  match t.stage, t.job with
  | .fresh, .push actor _ answer => some ⟨actor.correlator.peer, answer.encode, .unsent⟩
  | .pushing p, .push _ _ _ => some p
  | _, _ => none

/-- A task that has a listener makes no POST itself. -/
theorem Task.push?_of_subscription {t : Task} {sub : Subscription}
    (hsub : t.subscription? = some sub) : t.push? = none := by
  unfold subscription? at hsub
  unfold push?
  cases hst : t.stage with
  | fresh => simp [hst] at hsub
  | pushing p => simp [hst] at hsub
  | _ => rfl

/-- Whether a task can do nothing for want of something to work with. -/
def Task.IsIdle (w : World) (t : Task) : Prop :=
  match t.stage, t.job.errand? with
  | .fresh, some e => ∃ route i, e.caller.answers = some route ∧ route.medium = .link i ∧
      w.stations[i]? = none
  | .subscribing _ _ _ _, none => True
  | .armed _ _, none => True
  | .awaiting _, none => True
  | .pushing _, _ => t.push? = none
  | _, _ => False

/-- Whether a task waits for a confirmation that is not there or, in sync mode, for the response. -/
def Task.IsWaiting (w : World) (t : Task) : Prop :=
  match t.stage with
  | .subscribing _ i call _ => w.callOutcome? i call = none
  | .awaiting _ => True
  | _ => False

/-- How a task that stays goes to another stage: the stage, whether it is in the middle of its turn,
and what it gains. -/
inductive Moves (w : World) (t : Task) : Stage → Bool → Gain → Prop where
  | waits (h : t.IsWaiting w) : Moves w t t.stage false .nothing
  | asks (e : Errand) (hst : t.stage = .fresh) (he : t.job.errand? = some e)
      (hroute : e.caller.answers = none) :
      Moves w t (.awaiting w.nextId) true (.courier e.caller.peer e.body none)
  | enlists (e : Errand) (route : AnswerRoute Medium) (name : String) (hst : t.stage = .fresh)
      (he : t.job.errand? = some e) (hroute : e.caller.answers = some route)
      (hmedium : route.medium = .hub name) :
      Moves w t (.armed route (.hub e.key w.hub.next)) true (.listener none e.key)
  | feigns (e : Errand) (route : AnswerRoute Medium) (name : String) (script : Puppet)
      (hst : t.stage = .fresh) (he : t.job.errand? = some e)
      (hroute : e.caller.answers = some route) (hmedium : route.medium = .puppet name script)
      (hok : script.failure = none) :
      Moves w t (.armed route (.puppet name e.key script)) true .nothing
  | calls (e : Errand) (route : AnswerRoute Medium) (i : Nat) (s : Station) (hst : t.stage = .fresh)
      (he : t.job.errand? = some e) (hroute : e.caller.answers = some route)
      (hmedium : route.medium = .link i) (hs : w.stations[i]? = some s) :
      Moves w t (.subscribing route i s.link.nextCall s.link.listeners.next) true
        (.listener (some i) e.key)
  | confirms (e : Errand) (route : AnswerRoute Medium) (i : Nat) (call : CallId)
      (listener : ListenerId) (hst : t.stage = .subscribing route i call listener)
      (he : t.job.errand? = some e)
      (ho : (w.stations[i]?).bind (·.link.outcome? call) = some (.ok ())) :
      Moves w t (.armed route (.link i e.key listener)) true .nothing
  | launches (e : Errand) (route : AnswerRoute Medium) (sub : Subscription) (v : Vigil)
      (hst : t.stage = .armed route sub) (he : t.job.errand? = some e)
      (hv : v = ⟨⟨e.key, route.timeout, route.policy, true⟩, sub, w.now, w.nextId⟩) :
      Moves w t (.watching v) true (.courier e.caller.peer e.body (some v.due))
  | looks (v : Vigil) (hst : t.stage = .watching v)
      (hpoll : (v.watch.poll (w.view t v)).2.1 = none) :
      Moves w t (.watching { v with watch := (v.watch.poll (w.view t v)).1 }) false .nothing
  | pushes (p : Post) (busy : Bool) (hp : t.push? = some p)
      (hnone : (w.advanced p).ending? = none) : Moves w t (.pushing (w.advanced p)) busy .nothing

/-- How a task leaves that was not dropped: what it publishes on the way, and its outcome. Only a
task whose own POST crashes has none. -/
inductive Leaves (w : World) (t : Task) : List Publication → Option Outcome → Prop where
  | refused (refusal : Json.Refusal) (hst : t.stage = .fresh) (hjob : t.job = .refused refusal) :
      Leaves w t [] (some (.refused refusal))
  | unarmed (e : Errand) (route : AnswerRoute Medium) (name : String) (script : Puppet)
      (f : Failure) (hst : t.stage = .fresh) (he : t.job.errand? = some e)
      (hroute : e.caller.answers = some route) (hmedium : route.medium = .puppet name script)
      (hf : script.failure = some f) : Leaves w t [] (some (t.job.outcome (.error f)))
  | unconfirmed (e : Errand) (route : AnswerRoute Medium) (i : Nat) (call : CallId)
      (listener : ListenerId) (f : Failure) (hst : t.stage = .subscribing route i call listener)
      (he : t.job.errand? = some e)
      (ho : (w.stations[i]?).bind (·.link.outcome? call) = some (.error f)) :
      Leaves w t [] (some (t.job.outcome (.error f)))
  | decided (v : Vigil) (r : Except Failure Bytes) (hst : t.stage = .watching v)
      (hpoll : (v.watch.poll (w.view t v)).2.1 = some r) : Leaves w t [] (some (t.job.outcome r))
  | answered (e : Errand) (courier : WorkId) (r : Except Failure Bytes)
      (hst : t.stage = .awaiting courier) (he : t.job.errand? = some e)
      (hr : w.replied t e.key courier = some r) : Leaves w t [] (some (t.job.outcome r))
  | pushed (actor : Actor) (op : Operation) (answer : Answer op) (p : Post) (ending : Ending)
      (hjob : t.job = .push actor op answer) (hp : t.push? = some p)
      (hend : (w.advanced p).ending? = some ending) (o : Option Outcome)
      (ho : o = ending.returned?.map fun returned =>
        match (actor.concludePush answer returned).1 with
        | .ok () => .pushed
        | .error f => .failed f) :
      Leaves w t (w.carries p) o

/-- What one piece of the turn of a task comes to. -/
inductive Turned (w : World) (t : Task) : World → Prop where
  | cleared (hd : (t.isDropped && !t.isBusy) = true) : Turned w t (w.left t none)
  | still (hd : (t.isDropped && !t.isBusy) = false) (h : t.IsIdle w) : Turned w t w
  | leaves (hd : (t.isDropped && !t.isBusy) = false) (pubs : List Publication)
      (o : Option Outcome) (h : Leaves w t pubs o) : Turned w t ((w.offered pubs).left t o)
  | moves (hd : (t.isDropped && !t.isBusy) = false) (stage : Stage) (isBusy : Bool) (gain : Gain)
      (h : Moves w t stage isBusy gain) :
      Turned w t ((w.gained t.id gain).putTask { t with stage, isBusy })

namespace World

/-! ### How changes are put together -/

theorem mem_setAlarm {due : Nat} {owner : Runnable} {w : World} {a : Alarm} :
    a ∈ (w.setAlarm due owner).alarms ↔ a ∈ w.alarms ∨ a = ⟨due, owner⟩ := by
  have hsplit := List.takeWhile_append_dropWhile (p := fun a : Alarm => decide (a.due ≤ due))
    (l := w.alarms)
  have hmem : a ∈ w.alarms ↔ a ∈ w.alarms.takeWhile (fun a => decide (a.due ≤ due)) ∨
      a ∈ w.alarms.dropWhile (fun a => decide (a.due ≤ due)) := by
    conv_lhs => rw [← hsplit]
    exact List.mem_append
  rw [hmem]
  simp only [setAlarm, List.mem_append, List.mem_cons]
  tauto

theorem alike_setAlarm (due : Nat) (owner : Runnable) (w : World) :
    w.Alike (w.setAlarm due owner) :=
  { Alike.refl w with alarms := fun _ ha => mem_setAlarm.mpr (.inl ha) }

/-- A change that leaves listeners and the queue alone is heeded by all. -/
theorem leads_self {w W : World} (hhub : W.hub = w.hub) (hstations : W.stations = w.stations)
    (hready : W.ready = w.ready) : w.Leads W W :=
  ⟨.refl W, fun r hr => hready ▸ hr, fun u _ _ => .of_links hhub fun _ => by rw [hstations]⟩

theorem Leads.setAlarm {w W w' : World} (h : w.Leads W w') (due : Nat) (owner : Runnable) :
    w.Leads W (w'.setAlarm due owner) where
  alike := h.alike.trans (alike_setAlarm due owner w')
  ready := h.ready
  heeds u hu hstays := (h.heeds u hu hstays).then_same rfl rfl fun _ => id

theorem Leads.setAlarm_both {w W w' : World} (h : w.Leads W w') (due : Nat) (owner : Runnable) :
    w.Leads (W.setAlarm due owner) (w'.setAlarm due owner) :=
  { h.setAlarm due owner with
    alike := { h.alike with
      alarms := fun a ha => mem_setAlarm.mpr ((mem_setAlarm.mp ha).imp_left (h.alike.alarms a)) } }

theorem Alike.handedOut {w w' : World} (h : w.Alike w') (waiter : WorkId) (peer : Nat)
    (body : Bytes) : (w.handedOut waiter peer body).Alike (w'.handedOut waiter peer body) :=
  { h with
    couriers := by simp only [World.handedOut, h.couriers, h.nextId]
    nextId := by simp only [World.handedOut, h.nextId] }

/-- The new listener gets the same id if no other came in between. -/
theorem Alike.enlisted {w w' : World} (h : w.Alike w') (hstations : w'.stations = w.stations)
    (place : Option Nat) (key : Key) : (w.enlisted place key).Alike (w'.enlisted place key) := by
  cases place with
  | none => exact { h with hub := congrArg (fun l : Listeners => l.add key) h.hub }
  | some i =>
    refine { h with places := ?_, stations := fun j s hs => ⟨s, ?_, .refl _⟩ }
    · simp only [World.enlisted, World.onListeners, hstations]
    simpa only [World.enlisted, World.onListeners, hstations] using hs

theorem Alike.putTask {w w' : World} (h : w.Alike w') (t : Task) :
    (w.putTask t).Alike (w'.putTask t) :=
  { h with tasks := by simp only [World.putTask, h.tasks] }

theorem Alike.gone {w w' : World} (h : w.Alike w') (t : Task) (o : Option Outcome) :
    (w.gone t o).Alike (w'.gone t o) :=
  { h with
    tasks := by simp only [World.gone, h.tasks]
    ended := by simp only [World.gone, h.ended] }

theorem ids_putTask (t : Task) (w : World) :
    (w.putTask t).tasks.map (·.id) = w.tasks.map (·.id) := by
  rw [putTask, List.map_map]
  refine List.map_congr_left fun u _ => ?_
  by_cases h : u.id = t.id <;> simp [h]

theorem Leads.putTask {w W w' : World} (h : w.Leads W w') (t : Task) :
    w.Leads (W.putTask t) (w'.putTask t) where
  alike := h.alike.putTask t
  ready := h.ready
  heeds u hu hstays := by
    rw [ids_putTask] at hstays
    exact (h.heeds u hu hstays).then_same rfl rfl fun _ => id

/-- A task that goes need not heed what changes. -/
theorem leads_gone {w W w' : World} (halike : W.Alike w') (hready : ∀ r ∈ w.ready, r ∈ w'.ready)
    (t : Task) (o : Option Outcome)
    (hheeds : ∀ u ∈ w.tasks, u.id ≠ t.id → w.Heeds u w') : w.Leads (W.gone t o) (w'.gone t o) where
  alike := halike.gone t o
  ready := hready
  heeds u hu hstays := by
    have hne : u.id ≠ t.id := by
      obtain ⟨u', hu', hid⟩ := List.mem_map.mp hstays
      have hne' := of_decide_eq_true (List.mem_filter.mp hu').2
      rw [← hid]
      exact hne'
    exact (hheeds u hu hne).then_same rfl rfl fun _ => id

theorem Leads.gone {w W w' : World} (h : w.Leads W w') (htasks : w'.tasks = w.tasks) (t : Task)
    (o : Option Outcome) : w.Leads (W.gone t o) (w'.gone t o) :=
  leads_gone h.alike h.ready t o fun u hu _ =>
    h.heeds u hu (List.mem_map_of_mem (htasks ▸ hu))

/-! ### POSTs -/

theorem leads_carryOut (outlet : Outlet) (reply : Reply) (p : Post) (w : World) :
    w.Leads (w.offered (if outlet = .hub then reply.publications else []))
      (w.carryOut outlet reply p).2 := by
  have hreport : ∀ u : World, u.Aside (u.report reply.log) := aside_report reply.log
  cases outlet with
  | hub =>
    have hpubs := w.leads_publishAll reply.publications
    have htasks := hpubs.alike.tasks.trans (tasks_onListeners _ _ _)
    exact hpubs.then_aside (hreport _) htasks fun _ hs => hpubs.alike.holds (holds_offered hs)
  | broker =>
    have hbroker : ∀ (pubs : List Publication) (u : World),
        u.Aside (pubs.foldl (fun u pub => u.publishByBroker pub.key pub.payload) u) := by
      intro pubs
      induction pubs with
      | nil => exact fun u => .refl u
      | cons pub pubs ih => exact fun u => (aside_publishByBroker _ _ u).trans (ih _)
    exact .of_aside ((hbroker _ w).trans (hreport _))

theorem samePeers_set {ps : List Peer} {i : Nat} {peer : Peer} (h : ps[i]? = some peer) (n : Nat) :
    SamePeers ps (ps.set i { peer with posts := n }) := by
  intro j
  by_cases hij : i = j
  · subst hij
    rw [List.getElem?_set_self (List.getElem?_eq_some_iff.mp h).1, h]
    rfl
  · rw [List.getElem?_set_ne hij]

private theorem aside_peers {w : World} {i : Nat} {peer : Peer} (h : w.peers[i]? = some peer)
    (n : Nat) : w.Aside { w with peers := w.peers.set i { peer with posts := n } } :=
  ⟨{ Alike.refl w with peers := samePeers_set h n }, fun _ _ => .of_links rfl fun _ => rfl⟩

/-- What a move of a POST comes to. -/
theorem movePost_spec (owner : Runnable) (p : Post) (w : World) :
    (w.movePost owner p).1 = w.advanced p ∧
      w.Leads (w.offered (w.carries p)) (w.movePost owner p).2 := by
  unfold movePost advanced carries
  cases hpeer : w.peers[p.peer]? with
  | none => exact ⟨rfl, .refl w⟩
  | some peer =>
    cases hst : p.stage with
    | unsent =>
      dsimp only
      refine ⟨rfl, ?_⟩
      have hpost := aside_peers hpeer (peer.posts + 1)
      have hwait : ∀ {v : World} (due : Nat), w.Aside v →
          w.Leads w
            (if (peer.react peer.posts p.body).delay = 0 then v else v.setAlarm due owner) := by
        intro v due hv
        split
        · exact .of_aside hv
        · exact (Leads.of_aside hv).setAlarm _ owner
      refine hwait _ ?_
      split
      · exact hpost.trans (aside_record _ _)
      · exact hpost
    | underway due reply =>
      dsimp only
      by_cases hdue : due ≤ w.now
      · rw [if_pos hdue, if_pos hdue]
        refine ⟨rfl, ?_⟩
        have h := leads_carryOut peer.outlet reply p w
        simpa only [hdue, true_and] using h
      · rw [if_neg hdue, if_neg hdue, if_neg fun h => hdue h.1]
        exact ⟨rfl, .refl w⟩
    | ended ending => exact ⟨rfl, .refl w⟩

/-- Only a POST that ends publishes anything. -/
theorem carries_eq_nil {p : Post} {w : World} (h : (w.advanced p).ending? = none) :
    w.carries p = [] := by
  unfold advanced at h
  unfold carries
  cases hpeer : w.peers[p.peer]? with
  | none => rfl
  | some peer =>
    cases hst : p.stage with
    | unsent => rfl
    | ended ending => rfl
    | underway due reply =>
      simp only [hpeer, hst] at h ⊢
      split at h
      · simp [Post.ending?] at h
      · rename_i hdue
        rw [if_neg fun h => hdue h.1]

theorem advanced_of_ended {p : Post} {w : World} (h : p.ending?.isSome) :
    w.advanced p = p ∧ w.carries p = [] := by
  unfold Post.ending? at h
  unfold advanced carries
  cases hst : p.stage with
  | unsent => rw [hst] at h; simp at h
  | underway due reply => rw [hst] at h; simp at h
  | ended ending => cases w.peers[p.peer]? <;> exact ⟨rfl, rfl⟩

theorem peer_advanced (p : Post) (w : World) :
    (w.advanced p).peer = p.peer ∧ (w.advanced p).body = p.body := by
  unfold advanced
  split
  · exact ⟨rfl, rfl⟩
  · split <;> exact ⟨rfl, rfl⟩
  · exact ⟨rfl, rfl⟩

/-! ### The pieces of a turn -/

theorem leads_dispatch (waiter : WorkId) (peer : Nat) (body : Bytes) (w : World) :
    w.Leads (w.handedOut waiter peer body) (w.dispatch waiter peer body) := by
  have hself : w.Leads (w.handedOut waiter peer body) (w.handedOut waiter peer body) :=
    leads_self rfl rfl rfl
  exact hself.then_aside (aside_wake _ _) rfl fun _ hs => hs

/-- The premises under which the listener of a task can be released. -/
private abbrev Keyed (w : World) (t : Task) : Prop :=
  ∀ key id, t.subscription? = some (.hub key id) → ∀ k, id ∈ w.hub.registry.on k → k = key

/-- A task goes and releases its listener. -/
private theorem leads_left {w : World} {t : Task} (hhub : w.hub.InOrder) (hkey : Keyed w t)
    (ht : t ∈ w.tasks) {sub : Subscription} (hsub : t.subscription? = some sub)
    (o : Option Outcome) : w.Leads (w.left t o) ((w.release sub).gone t o) := by
  rw [left, hsub]
  refine leads_gone (alike_release sub w) (ready_release sub w) t o fun u hu hne => ?_
  refine heeds_release hhub (fun key id h => hkey key id (h ▸ hsub)) hu
    fun v seat hst hseat hsole => ?_
  intro hsame
  have hseat' : t.seat? = some seat := by rw [Task.seat?, hsub, Option.bind_some, hsame]
  exact hne (hsole t ht hseat').symm

private theorem left_of_none {t : Task} (h : t.subscription? = none) (o : Option Outcome)
    (w : World) : w.left t o = w.gone t o := by
  rw [left, h]

theorem leads_clear {w : World} {t : Task} (hhub : w.hub.InOrder) (hkey : Keyed w t)
    (ht : t ∈ w.tasks) : w.Leads (w.left t none) (w.clear t) := by
  have hgone : ∀ u : World, { u with tasks := u.tasks.filter (·.id ≠ t.id) } = u.gone t none := by
    intro u
    simp [gone]
  unfold clear
  rw [hgone]
  split
  · rename_i route sub hst
    exact leads_left hhub hkey ht (by rw [Task.subscription?, hst]) none
  · rename_i v hst
    exact leads_left hhub hkey ht (by rw [Task.subscription?, hst]) none
  · rename_i route i call listener hst
    split
    · rename_i e he
      have hsub : t.subscription? = some (.link i e.key listener) := by
        rw [Task.subscription?, hst]
        simp [he]
      have hf : ∀ l : Redis.Link, (l.abandon call e.key listener).1.listeners =
          l.listeners.release e.key listener := fun l =>
        Redis.Link.listeners_release e.key listener _
      rw [left, hsub]
      have halike := alike_onLink hf (Redis.Link.onward_abandon call e.key listener) i w
      refine leads_gone halike (fun r hr => halike.ready r (by simpa using hr)) t none
        fun u hu hne => heeds_onLink hu fun v j hvst hseat hsole l hid => ?_
      rw [hf]
      refine Listeners.holds_release.mpr ⟨hid, ?_⟩
      rintro rfl
      exact hne (hsole t ht (by rw [Task.seat?, hsub]; rfl)).symm
    · rename_i he
      rw [left_of_none (by rw [Task.subscription?, hst]; simp [he])]
      exact (Leads.refl w).gone rfl t none
  · rename_i h₁ h₂ h₃
    have hsub : t.subscription? = none := by
      unfold Task.subscription?
      cases hst : t.stage with
      | subscribing route i call listener => exact absurd hst (h₃ route i call listener)
      | armed route sub => exact absurd hst (h₁ route sub)
      | watching v => exact absurd hst (h₂ v)
      | fresh => rfl
      | awaiting courier => rfl
      | pushing p => rfl
    rw [left_of_none hsub]
    exact (Leads.refl w).gone rfl t none

section Turns

variable {w : World} {t : Task}

theorem finish_eq_gone (t : Task) (o : Outcome) (w : World) :
    w.finish t o = w.gone t (some o) := rfl

theorem crash_eq_gone (t : Task) (w : World) : w.crash t = w.gone t none := by
  simp [crash, gone]

private theorem rest_eq_putTask (t : Task) (stage : Stage) (w : World) :
    w.rest t stage = w.putTask { t with stage, isBusy := false } := rfl

private theorem goOn_eq_putTask (t : Task) (stage : Stage) (w : World) :
    w.goOn t stage = w.putTask { t with stage, isBusy := true } := rfl

/-- A task that has no listener goes. -/
private theorem turned_leaves (hd : (t.isDropped && !t.isBusy) = false) {o : Outcome}
    (h : Leaves w t [] (some o)) (hsub : t.subscription? = none) {w₁ : World}
    (haside : w.Aside w₁) : ∃ W, Turned w t W ∧ w.Leads W (w₁.finish t o) := by
  refine ⟨_, .leaves hd [] _ h, ?_⟩
  rw [offered_nil, left_of_none hsub, finish_eq_gone]
  exact (Leads.of_aside haside).gone haside.tasks t _

private theorem turned_lookAsync (hhub : w.hub.InOrder) (hkey : Keyed w t) (ht : t ∈ w.tasks)
    (hd : (t.isDropped && !t.isBusy) = false) {v : Vigil} (hst : t.stage = .watching v) :
    ∃ W, Turned w t W ∧ w.Leads W (w.lookAsync t v) := by
  have hsub : t.subscription? = some v.subscription := by rw [Task.subscription?, hst]
  unfold lookAsync
  dsimp only
  have hreport := aside_report (v.watch.poll (w.view t v)).2.2 w
  split
  · rename_i r hpoll
    refine ⟨_, .leaves hd [] _ (.decided v r hst hpoll), ?_⟩
    rw [offered_nil, finish_eq_gone]
    have hleft := leads_left (w := w.report (v.watch.poll (w.view t v)).2.2) hhub hkey ht hsub
      (some (t.job.outcome r))
    refine hleft.after_aside hreport ?_
    rw [left, left, hsub]
    exact (hreport.toAlike.without v.subscription).gone t _
  · rename_i hpoll
    refine ⟨_, .moves hd _ _ _ (.looks v hst hpoll), ?_⟩
    exact (Leads.of_aside hreport).putTask _

private theorem turned_lookSync (hd : (t.isDropped && !t.isBusy) = false) {e : Errand}
    {courier : WorkId} (hst : t.stage = .awaiting courier) (he : t.job.errand? = some e) :
    ∃ W, Turned w t W ∧ w.Leads W (w.lookSync t e.key courier) := by
  unfold lookSync
  dsimp only
  split
  · rename_i r hr
    have hsub : t.subscription? = none := by rw [Task.subscription?, hst]
    exact turned_leaves hd (.answered e courier r hst he hr) hsub (aside_report _ w)
  · refine ⟨_, .moves hd _ _ _ (.waits (by rw [Task.IsWaiting, hst]; trivial)), ?_⟩
    rw [rest_eq_putTask, ← hst]
    exact (Leads.of_aside (aside_report _ w)).putTask _

private theorem turned_launch (hd : (t.isDropped && !t.isBusy) = false) {e : Errand}
    {route : AnswerRoute Medium} {sub : Subscription} (hst : t.stage = .armed route sub)
    (he : t.job.errand? = some e) :
    ∃ W, Turned w t W ∧ w.Leads W (w.launch t e route sub) := by
  refine ⟨_, .moves hd _ _ _ (.launches e route sub _ hst he rfl), ?_⟩
  unfold launch
  dsimp only
  rw [goOn_eq_putTask]
  have hreport := aside_report [.debug s!"{e.key}: listener armed"] w
  have hdispatch := (leads_dispatch t.id e.caller.peer e.body _).after_aside hreport
    (hreport.toAlike.handedOut t.id e.caller.peer e.body)
  exact (hdispatch.setAlarm_both _ _).putTask _

private theorem aside_fetched (i : Nat) (call : CallId) (w : World) :
    w.Aside (w.onLink i fun l => (l.fetched call, [])) :=
  aside_onLink (Redis.Link.extends_fetched call) w

private theorem turned_lookSubscribing (hhub : w.hub.InOrder) (ht : t ∈ w.tasks)
    (hd : (t.isDropped && !t.isBusy) = false) {e : Errand} {route : AnswerRoute Medium} {i : Nat}
    {call : CallId} {listener : ListenerId} (hst : t.stage = .subscribing route i call listener)
    (he : t.job.errand? = some e) :
    ∃ W, Turned w t W ∧ w.Leads W (w.lookSubscribing t e route i call listener) := by
  have hfetch := aside_fetched i call w
  unfold lookSubscribing
  split
  · rename_i ho
    refine ⟨_, .moves hd _ _ _ (.waits (by rw [Task.IsWaiting, hst]; exact ho)), ?_⟩
    rw [rest_eq_putTask, ← hst]
    exact (Leads.refl w).putTask _
  · rename_i outcome ho
    dsimp only
    cases outcome with
    | ok u =>
      exact ⟨_, .moves hd _ _ _ (.confirms e route i call listener hst he ho),
        (Leads.of_aside hfetch).putTask _⟩
    | error f =>
      refine ⟨_, .leaves hd [] _ (.unconfirmed e route i call listener f hst he ho), ?_⟩
      rw [offered_nil]
      have hsub : t.subscription? = some (.link i e.key listener) := by
        rw [Task.subscription?, hst]
        simp [he]
      have hleft := leads_left (w := w.onLink i fun l => (l.fetched call, []))
        (by rw [hfetch.hub]; exact hhub) (fun key id h => by simp [hsub] at h)
        (by rw [hfetch.tasks]; exact ht) hsub (some (t.job.outcome (.error f)))
      refine hleft.after_aside hfetch ?_
      rw [left, left, hsub]
      exact (hfetch.toAlike.without _).gone t _

private theorem turned_beginExchange (hhub : w.hub.InOrder)
    (hd : (t.isDropped && !t.isBusy) = false) {e : Errand} (hst : t.stage = .fresh)
    (he : t.job.errand? = some e) {w₁ : World} (h₁ : w.Aside w₁)
    (hstations : w₁.stations = w.stations) :
    ∃ W, Turned w t W ∧ w.Leads W (w₁.beginExchange t e) := by
  have hhub₁ : w₁.hub.InOrder := by rw [h₁.hub]; exact hhub
  unfold beginExchange
  cases hroute : e.caller.answers with
  | none =>
    dsimp only
    refine ⟨_, .moves hd _ _ _ (.asks e hst he hroute), ?_⟩
    rw [goOn_eq_putTask, h₁.nextId]
    exact ((leads_dispatch t.id e.caller.peer e.body w₁).after_aside h₁
      (h₁.toAlike.handedOut _ _ _)).putTask _
  | some route =>
    dsimp only
    cases hmedium : route.medium with
    | hub name =>
      dsimp only
      refine ⟨_, .moves hd _ _ _ (.enlists e route name hst he hroute hmedium), ?_⟩
      rw [goOn_eq_putTask, ← h₁.hub]
      refine Leads.putTask ?_ _
      have hrecord := h₁.trans (aside_record (.subscribe name e.key) w₁)
      have hsubscribe := leads_subscribeHub (w := w₁.record (.subscribe name e.key)) hhub₁ e.key
        [.debug s!"memory: subscribe to {e.key} (id {w₁.hub.next})"]
      exact hsubscribe.after_aside hrecord (hrecord.toAlike.enlisted hstations none e.key)
    | puppet name script =>
      dsimp only
      have hrecord := h₁.trans (aside_record (.subscribe name e.key) w₁)
      cases hf : script.failure with
      | some f =>
        have hsub : t.subscription? = none := by rw [Task.subscription?, hst]
        exact turned_leaves hd (.unarmed e route name script f hst he hroute hmedium hf)
          hsub hrecord
      | none =>
        exact ⟨_, .moves hd _ _ _ (.feigns e route name script hst he hroute hmedium hf),
          (Leads.of_aside hrecord).putTask _⟩
    | link i =>
      dsimp only
      cases hs : w.stations[i]? with
      | none =>
        rw [hstations, hs]
        refine ⟨w, .still hd ?_, .of_aside h₁⟩
        rw [Task.IsIdle, hst, he]
        exact ⟨route, i, hroute, hmedium, hs⟩
      | some s =>
        rw [hstations, hs]
        refine ⟨_, .moves hd _ _ _ (.calls e route i s hst he hroute hmedium hs), ?_⟩
        exact ((leads_subscribeLink i e.key w₁).after_aside h₁
          (h₁.toAlike.enlisted hstations (some i) e.key)).putTask _

private theorem turned_movePush (hd : (t.isDropped && !t.isBusy) = false) {actor : Actor}
    {op : Operation} {answer : Answer op} {p : Post} (hjob : t.job = .push actor op answer)
    (hp : t.push? = some p) (hsub : t.subscription? = none) :
    ∃ W, Turned w t W ∧ w.Leads W (w.movePush t actor answer p) := by
  obtain ⟨hpost, hmove⟩ := movePost_spec (.task t.id) p w
  unfold movePush
  dsimp only
  rw [hpost]
  cases hend : (w.advanced p).ending? with
  | some ending =>
    dsimp only
    refine ⟨_, .leaves hd _ _ (.pushed actor op answer p ending hjob hp hend _ rfl), ?_⟩
    rw [left_of_none hsub]
    have htasks : (w.movePost (.task t.id) p).2.tasks = w.tasks :=
      hmove.alike.tasks.trans (tasks_onListeners _ _ _)
    cases ending.returned? with
    | none =>
      dsimp only
      rw [Option.map_none, crash_eq_gone]
      exact hmove.gone htasks t none
    | some returned =>
      have hreport : ∀ lines, w.Leads (w.offered (w.carries p))
          ((w.movePost (.task t.id) p).2.report lines) := fun lines =>
        hmove.then_aside (aside_report lines _) htasks
          fun _ hs => hmove.alike.holds (holds_offered hs)
      exact (hreport _).gone htasks t _
  | none =>
    dsimp only
    rw [carries_eq_nil hend, offered_nil] at hmove
    split
    · exact ⟨_, .moves hd _ _ _ (.pushes p true hp hend), hmove.putTask _⟩
    · exact ⟨_, .moves hd _ _ _ (.pushes p false hp hend), hmove.putTask _⟩

private theorem turned_begin (hhub : w.hub.InOrder) (hd : (t.isDropped && !t.isBusy) = false)
    (hst : t.stage = .fresh) : ∃ W, Turned w t W ∧ w.Leads W (w.begin t) := by
  have hsub : t.subscription? = none := by rw [Task.subscription?, hst]
  unfold begin
  split
  · rename_i caller key body hjob
    exact turned_beginExchange hhub hd hst (by rw [hjob]; rfl) (.refl w) rfl
  · rename_i actor op request hjob
    exact turned_beginExchange hhub hd hst (by rw [hjob]; rfl) (aside_report _ w) rfl
  · rename_i actor op answer hjob
    refine turned_movePush hd hjob ?_ hsub
    rw [Task.push?, hst, hjob]
  · rename_i refusal hjob
    exact turned_leaves hd (.refused refusal hst hjob) hsub (.refl w)

private theorem turned_still (hd : (t.isDropped && !t.isBusy) = false) (h : t.IsIdle w) :
    ∃ W, Turned w t W ∧ w.Leads W w := ⟨w, .still hd h, .refl w⟩

end Turns

/-- What a move of a task comes to. -/
theorem turned_moveTask {id : WorkId} {t : Task} {w : World} (hhub : w.hub.InOrder)
    (hkey : ∀ key l, t.subscription? = some (.hub key l) → ∀ k, l ∈ w.hub.registry.on k → k = key)
    (ht : w.task? id = some t) : ∃ W, Turned w t W ∧ w.Leads W (w.moveTask id) := by
  have hmem : t ∈ w.tasks := List.mem_of_find?_eq_some ht
  unfold moveTask
  rw [ht]
  dsimp only
  cases hd : t.isDropped && !t.isBusy with
  | true => exact ⟨_, .cleared hd, leads_clear hhub hkey hmem⟩
  | false =>
    rw [if_neg (by simp)]
    cases hst : t.stage with
    | fresh => exact turned_begin hhub hd hst
    | subscribing route i call listener =>
      dsimp only
      split
      · rename_i e he
        exact turned_lookSubscribing hhub hmem hd hst he
      · rename_i he
        exact turned_still hd (by rw [Task.IsIdle, hst, he]; trivial)
    | armed route sub =>
      dsimp only
      split
      · rename_i e he
        exact turned_launch hd hst he
      · rename_i he
        exact turned_still hd (by rw [Task.IsIdle, hst, he]; trivial)
    | watching v => exact turned_lookAsync hhub hkey hmem hd hst
    | awaiting courier =>
      dsimp only
      split
      · rename_i e he
        exact turned_lookSync hd hst he
      · rename_i he
        exact turned_still hd (by rw [Task.IsIdle, hst, he]; trivial)
    | pushing p =>
      dsimp only
      split
      · rename_i actor op answer hjob
        refine turned_movePush hd hjob ?_ (by rw [Task.subscription?, hst])
        rw [Task.push?, hst, hjob]
      · rename_i hjob
        refine turned_still hd ?_
        rw [Task.IsIdle, hst]
        simp only [Task.push?, hst]
        cases hj : t.job with
        | push actor op answer => exact absurd hj (hjob actor op answer)
        | exchange caller key body => split <;> trivial
        | request actor op r => split <;> trivial
        | refused refusal => split <;> trivial

theorem Leads.putCourier {w W w' : World} (h : w.Leads W w') (c : Courier) :
    w.Leads (W.putCourier c) (w'.putCourier c) where
  alike := { h.alike with couriers := by simp only [World.putCourier, h.alike.couriers] }
  ready := h.ready
  heeds u hu hstays := (h.heeds u hu hstays).then_same rfl rfl fun _ => id

/-- What a move of a POST comes to: the task that waits for it is woken by its end. -/
theorem leads_moveCourier {id : WorkId} {c : Courier} {w : World} (hc : w.courier? id = some c)
    (hopen : c.post.ending? = none) :
    w.Leads ((w.offered (w.carries c.post)).putCourier { c with post := w.advanced c.post })
      (w.moveCourier id) ∧
    ((w.advanced c.post).ending?.isSome → .task c.waiter ∈ (w.moveCourier id).ready) := by
  obtain ⟨hpost, hmove⟩ := movePost_spec (.post id) c.post w
  unfold moveCourier
  rw [hc]
  dsimp only
  rw [hopen, if_neg (by simp), hpost]
  have hput := hmove.putCourier { c with post := w.advanced c.post }
  have htasks : ((w.movePost (.post id) c.post).2.putCourier
      { c with post := w.advanced c.post }).tasks = w.tasks :=
    hmove.alike.tasks.trans (tasks_onListeners _ _ _)
  split
  · exact ⟨hput.then_aside (aside_wake _ _) htasks
      fun _ hs => hmove.alike.holds (holds_offered hs), fun _ => mem_ready_wake _ _⟩
  · rename_i hnone
    exact ⟨hput, fun hend => absurd hend hnone⟩

end World

end Roaming.Simulation
