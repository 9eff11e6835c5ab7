import Roaming.Proofs.Answering
import Roaming.Proofs.Diligence
import Roaming.Proofs.Mending

/-!
# Pushing an answer

A task that pushes an answer hands one POST to the peer of its client, with the bytes of the
answer, and waits for the end of it; its moves do nothing else. It ends with what the peer
replied: status 200 acknowledges the answer, and every other status and every failure is reported
as it is. The POST is made in place, not by a task of its own: if it crashes, the task goes along
and there is no result.
-/

set_option autoImplicit false
set_option relaxedAutoImplicit false

namespace Roaming

/-- How the push of an answer ends, by how its POST ended. -/
inductive Ending.Reports : Ending → Option Simulation.Outcome → Prop where
  | acknowledged (r : Response) (h : r.status = 200) : Reports (.answered r) (some .pushed)
  | unexpected (r : Response) (h : r.status ≠ 200) (text : String)
      (htext : Text.ReadsAs r.body text.toList) :
      Reports (.answered r) (some (.failed (.unexpectedStatus r.status text)))
  | failed (f : Failure) : Reports (.failed f) (some (.failed f))
  /-- Nothing is returned, neither acknowledgement nor failure. -/
  | crashed (text : String) : Reports (.crashed text) none

end Roaming

namespace Roaming.Simulation

open Roaming.Text (Bytes)

/-- A POST that was handed to its peer: when it was, and what the peer replies. -/
structure Handing where
  time : Nat
  post : Post
  reply : Reply

/-- The POST with which a client pushes an answer. -/
def pushPost (actor : Actor) {op : Operation} (a : Answer op) : Post :=
  ⟨actor.correlator.peer, a.encode, .unsent⟩

/-- How the push of an answer ends is how its POST is reported. -/
theorem reports_concludePush (actor : Actor) {op : Operation} (a : Answer op) (ending : Ending) :
    ending.Reports (ending.returned?.map fun returned =>
      match (actor.concludePush a returned).1 with
      | .ok () => .pushed
      | .error f => .failed f) := by
  cases ending with
  | answered r =>
    simp only [Ending.returned?, Option.map_some, Client.concludePush]
    by_cases hstatus : r.status = 200
    · rw [if_neg (not_not.mpr hstatus)]
      exact .acknowledged r hstatus
    · rw [if_pos hstatus]
      exact .unexpected r hstatus _ (Text.readsAs_iff.mpr rfl)
  | failed f => exact .failed f
  | crashed text => exact .crashed text

namespace World

/-- What is handed to a peer if a POST is moved. -/
def handing? (p : Post) (w : World) : Option Handing :=
  if p.isUnsent then (w.peers[p.peer]?).map fun peer => ⟨w.now, p, peer.react peer.posts p.body⟩
  else none

/-- What is recorded when a POST is handed to its peer. -/
def recordedPost (h : Handing) (w : World) : List Event :=
  match (w.peers[h.post.peer]?).bind (·.name) with
  | some name => [.post name h.post.body]
  | none => []

/-- Whether nothing has happened from one world to another for which anybody was called: nothing is
recorded, no listener is new or gone, and no call was made on a link. -/
structure Uncalled (w w' : World) : Prop where
  events : w'.events = w.events
  registry : w'.hub.registry = w.hub.registry
  next : w'.hub.next = w.hub.next
  links : w'.stations.map (·.link) = w.stations.map (·.link)

/-- Whether nothing has been done from one world to another but to hand over a POST, if one is. -/
structure OnlyPosts (w w' : World) (handing : Option Handing) : Prop where
  events : w'.events = w.events ++ handing.toList.flatMap w.recordedPost
  peers : w'.peers = (handing.map (w.reached ·.post)).getD w.peers
  couriers : w'.couriers = w.couriers
  registry : w'.hub.registry = w.hub.registry
  next : w'.hub.next = w.hub.next
  links : w'.stations.map (·.link) = w.stations.map (·.link)

/-- Whether a peer stands at a position, whatever the number of the POSTs it has had. -/
def HasPeer (i : Nat) (peer : Peer) (w : World) : Prop :=
  ∃ n, w.peers[i]? = some { peer with posts := n }

variable {w w' w'' : World}

/-! ### Moves of a POST -/

theorem Uncalled.refl (w : World) : w.Uncalled w := ⟨rfl, rfl, rfl, rfl⟩

theorem Uncalled.trans (h : w.Uncalled w') (h' : w'.Uncalled w'') : w.Uncalled w'' :=
  ⟨h'.events.trans h.events, h'.registry.trans h.registry, h'.next.trans h.next,
    h'.links.trans h.links⟩

theorem uncalled_wake (r : Runnable) (w : World) : w.Uncalled (w.wake r) := by
  obtain ⟨ready, hw⟩ := exists_wake r w
  rw [hw]
  exact ⟨rfl, rfl, rfl, rfl⟩

theorem uncalled_publishOnHub (key : Key) (payload : Bytes) (w : World) :
    w.Uncalled (w.publishOnHub key payload) := by
  obtain ⟨ready, log, hw⟩ := publishOnHub_eq key payload w
  rw [hw]
  exact ⟨rfl, rfl, rfl, rfl⟩

theorem uncalled_foldl {α : Type} {F : World → α → World} (hF : ∀ w x, Uncalled w (F w x))
    (xs : List α) (w : World) : w.Uncalled (xs.foldl F w) := by
  induction xs generalizing w with
  | nil => exact .refl w
  | cons x xs ih => exact (hF w x).trans (ih (F w x))

theorem uncalled_bring (sendings : List Sending) (w : World) : w.Uncalled (w.bring sendings) := by
  refine uncalled_foldl (fun w sending => ?_) sendings w
  split
  · exact .refl w
  · refine Uncalled.trans ?_ (uncalled_wake _ _)
    refine ⟨rfl, rfl, rfl, List.ext_getElem? fun j => ?_⟩
    rw [List.getElem?_map, List.getElem?_map, List.getElem?_modify]
    cases w.stations[j]? with
    | none => rfl
    | some st =>
      split
      · rfl
      · rfl

/-- What a peer publishes is no call of the client. -/
theorem uncalled_carryOut (outlet : Outlet) (reply : Reply) (p : Post) (w : World) :
    w.Uncalled (w.carryOut outlet reply p).2 := by
  refine Uncalled.trans (uncalled_foldl (fun w pub => ?_) reply.publications w) ⟨rfl, rfl, rfl, rfl⟩
  cases outlet with
  | hub => exact uncalled_publishOnHub pub.key pub.payload w
  | broker => exact uncalled_bring _ w

theorem handing?_of_unsent {p : Post} {peer : Peer} (hpeer : w.peers[p.peer]? = some peer)
    (hp : p.stage = .unsent) :
    w.handing? p = some ⟨w.now, p, peer.react peer.posts p.body⟩ := by
  rw [handing?, Post.isUnsent, hp, hpeer]
  rfl

theorem handing?_of_sent {p : Post} (hp : p.isUnsent = false) : w.handing? p = none := by
  rw [handing?, hp]
  rfl

/-- A POST that is handed to its peer is recorded, and an alarm is set for the end of the delay. -/
theorem movePost_of_unsent (owner : Runnable) {p : Post} {peer : Peer}
    (hpeer : w.peers[p.peer]? = some peer) (hp : p.stage = .unsent) {reply : Reply}
    (hreply : peer.react peer.posts p.body = reply) : ∃ alarms,
      w.movePost owner p = ({ p with stage := .underway (w.now + reply.delay) reply },
        { w with
          peers := w.reached p
          events := w.events ++ w.recordedPost ⟨w.now, p, reply⟩
          alarms }) ∧
      (reply.delay ≠ 0 → ⟨w.now + reply.delay, owner⟩ ∈ alarms) := by
  obtain ⟨name, react, outlet, posts⟩ := peer
  have hreply : react posts p.body = reply := hreply
  have hreached : w.reached p = w.peers.set p.peer ⟨name, react, outlet, posts + 1⟩ := by
    rw [reached, hpeer, hp]
    rfl
  by_cases hdelay : reply.delay = 0
  · refine ⟨w.alarms, ?_, fun hne => absurd hdelay hne⟩
    simp only [movePost, hpeer, hp, hreply, hreached, recordedPost, Option.bind_some, if_pos hdelay]
    cases name with
    | none => rw [List.append_nil]
    | some name => rfl
  · refine ⟨(w.setAlarm (w.now + reply.delay) owner).alarms, ?_,
      fun _ => mem_setAlarm.mpr (.inr rfl)⟩
    simp only [movePost, hpeer, hp, hreply, hreached, recordedPost, Option.bind_some, if_neg hdelay]
    cases name with
    | none =>
      rw [List.append_nil]
      rfl
    | some name => rfl

/-- A POST that is moved is handed to its peer, if it was not yet; nobody else is called. -/
theorem onlyPosts_movePost (owner : Runnable) (p : Post) (w : World) :
    w.OnlyPosts (w.movePost owner p).2 (w.handing? p) := by
  have hcouriers : (w.movePost owner p).2.couriers = w.couriers := by
    have hsame := congrArg (fun x => x.2.couriers) (movePost_withPosts w.couriers owner p w)
    exact hsame
  have hquiet : w.Uncalled (w.movePost owner p).2 → w.handing? p = none → w.reached p = w.peers →
      w.OnlyPosts (w.movePost owner p).2 (w.handing? p) := by
    intro hcalled hnone hreached
    rw [hnone]
    refine ⟨?_, ?_, hcouriers, hcalled.registry, hcalled.next, hcalled.links⟩
    · rw [hcalled.events]
      exact (List.append_nil _).symm
    · rw [peers_movePost]
      exact hreached
  cases hpeer : w.peers[p.peer]? with
  | none =>
    refine hquiet ?_ ?_ ?_
    · rw [movePost, hpeer]
      exact .refl w
    · rw [handing?, hpeer]
      exact ite_self _
    · rw [reached, hpeer]
  | some peer =>
    cases hst : p.stage with
    | unsent =>
      obtain ⟨alarms, hmove, -⟩ := movePost_of_unsent owner hpeer hst rfl
      rw [handing?_of_unsent hpeer hst, hmove]
      exact ⟨by rw [Option.toList_some, List.flatMap_singleton], rfl, rfl, rfl, rfl, rfl⟩
    | underway due reply =>
      refine hquiet ?_ (handing?_of_sent (by rw [Post.isUnsent, hst])) ?_
      · simp only [movePost, hpeer, hst]
        split
        · exact uncalled_carryOut peer.outlet reply p w
        · exact .refl w
      · rw [reached, hpeer, hst]
    | ended ending =>
      refine hquiet ?_ (handing?_of_sent (by rw [Post.isUnsent, hst])) ?_
      · simp only [movePost, hpeer, hst]
        exact .refl w
      · rw [reached, hpeer, hst]

/-- Nor is anybody called by what leaves the POSTs, the record, the hub and the stations alone. -/
theorem OnlyPosts.then_same {handing : Option Handing} (h : w.OnlyPosts w' handing)
    (hevents : w''.events = w'.events) (hpeers : w''.peers = w'.peers)
    (hcouriers : w''.couriers = w'.couriers) (hhub : w''.hub = w'.hub)
    (hstations : w''.stations = w'.stations) : w.OnlyPosts w'' handing where
  events := hevents.trans h.events
  peers := hpeers.trans h.peers
  couriers := hcouriers.trans h.couriers
  registry := by rw [hhub, h.registry]
  next := by rw [hhub, h.next]
  links := by rw [hstations, h.links]

/-- A task that pushes does nothing but move its POST. -/
theorem onlyPosts_movePush {op : Operation} (t : Task) (actor : Actor) (a : Answer op) (p : Post)
    (w : World) : w.OnlyPosts (w.movePush t actor a p) (w.handing? p) := by
  have hmove := onlyPosts_movePost (.task t.id) p w
  unfold movePush
  dsimp only
  -- Whether the task goes on, rests, crashes or ends, this is its own affair.
  split
  · split <;> exact hmove.then_same rfl rfl rfl rfl rfl
  · split <;> exact hmove.then_same rfl rfl rfl rfl rfl

/-- The first move of a task that pushes: its POST is underway, and it is woken for the end of
it. -/
theorem movePush_of_unsent {op : Operation} (t : Task) (actor : Actor) (a : Answer op) {p : Post}
    {peer : Peer} (hpeer : w.peers[p.peer]? = some peer) (hp : p.stage = .unsent) {reply : Reply}
    (hreply : peer.react peer.posts p.body = reply) : ∃ (W : World) (isBusy : Bool),
      w.movePush t actor a p = W.putTask { t with
        stage := .pushing { p with stage := .underway (w.now + reply.delay) reply }
        isBusy } ∧
      W.tasks = w.tasks ∧ W.now = w.now ∧
      (reply.delay ≠ 0 → ⟨w.now + reply.delay, .task t.id⟩ ∈ W.alarms) ∧
      (reply.delay = 0 → isBusy = true) := by
  obtain ⟨alarms, hmove, halarm⟩ := movePost_of_unsent (.task t.id) hpeer hp hreply
  simp only [movePush, hmove, Post.ending?, Post.isDue, decide_eq_true_eq]
  by_cases hdue : w.now + reply.delay ≤ w.now
  · simp only [if_pos hdue]
    exact ⟨_, true, rfl, rfl, rfl, halarm, fun _ => rfl⟩
  · simp only [if_neg hdue]
    refine ⟨_, false, rfl, rfl, rfl, halarm, fun hdelay => ?_⟩
    omega

/-- A later move of a task that pushes: it rests until the reply is carried out, and goes with what
the POST returns. -/
theorem movePush_of_underway {op : Operation} (t : Task) (actor : Actor) (a : Answer op) {p : Post}
    {peer : Peer} (hpeer : w.peers[p.peer]? = some peer) {due : Nat} {reply : Reply}
    (hp : p.stage = .underway due reply) :
    (w.now < due ∧ w.movePush t actor a p = w.rest t (.pushing p)) ∨
    (due ≤ w.now ∧ ∃ (W : World) (o : Option Outcome), w.movePush t actor a p = W.gone t o ∧
      W.tasks = w.tasks ∧ W.ended = w.ended ∧ reply.ending.Reports o) := by
  have hmove := (movePost_spec (.task t.id) p w).2.alike
  by_cases hdue : due ≤ w.now
  · refine .inr ⟨hdue, ?_⟩
    have hcarry : w.movePost (.task t.id) p = w.carryOut peer.outlet reply p := by
      simp only [movePost, hpeer, hp, if_pos hdue]
    have hended : (w.carryOut peer.outlet reply p).1.ending? = some reply.ending := rfl
    have hreports := reports_concludePush actor a reply.ending
    rw [hcarry] at hmove
    have htasks := hmove.tasks.trans (tasks_onListeners _ _ _)
    have hold := hmove.ended.trans (ended_onListeners _ _ _)
    simp only [movePush, hcarry, hended]
    cases hreturned : reply.ending.returned? with
    | none =>
      rw [hreturned] at hreports
      exact ⟨_, none, crash_eq_gone t _, htasks, hold, hreports⟩
    | some returned =>
      rw [hreturned] at hreports
      exact ⟨_, some _, finish_eq_gone t _ _, htasks, hold, hreports⟩
  · refine .inl ⟨Nat.lt_of_not_le hdue, ?_⟩
    have hstay : w.movePost (.task t.id) p = (p, w) := by
      simp only [movePost, hpeer, hp, if_neg hdue]
    simp only [movePush, hstay, Post.ending?, Post.isDue, hp, decide_eq_false hdue]
    rfl

theorem HasPeer.reached {i : Nat} {peer : Peer} (h : w.HasPeer i peer) (p : Post)
    (hw : w'.peers = w.reached p) : w'.HasPeer i peer := by
  obtain ⟨n, hn⟩ := h
  unfold HasPeer
  rw [hw, getElem?_reached, hn]
  split
  · exact ⟨n + 1, rfl⟩
  · exact ⟨n, rfl⟩

end World

/-- The POST with which a client pushes an answer, handed to a peer that has had so many before. -/
def handed (peer : Peer) (actor : Actor) {op : Operation} (a : Answer op) (time n : Nat) :
    Handing :=
  ⟨time, pushPost actor a, peer.react n a.encode⟩

/-- When the peer has carried out its reply. -/
def Handing.due (h : Handing) : Nat := h.time + h.reply.delay

/-- Whether an act is a move of a task. -/
def Act.isMoveOf (id : WorkId) : Act → Bool
  | .move (.task i) => i == id
  | _ => false

theorem Act.isMoveOf_iff {id : WorkId} {b : Act} : b.isMoveOf id = true ↔ b = .move (.task id) := by
  unfold isMoveOf
  split
  · rw [beq_iff_eq]
    exact ⟨fun h => by rw [h], fun h => by cases h; rfl⟩
  · rename_i hne
    exact iff_of_false Bool.false_ne_true (hne id)

namespace Scene

variable {s : Scene}

/-- What is handed to a peer in an act. -/
def handing? (b : Act) (s : Scene) : Option Handing :=
  (s.posted? b).bind fun p => s.world.handing? p

/-- What a task hands to peers in the course of acts. -/
def handings (id : WorkId) : List Act → Scene → List Handing
  | [], _ => []
  | b :: acts, s =>
    (if b.isMoveOf id then (s.handing? b).toList else []) ++ handings id acts (s.act b)

theorem hasPeer_act {i : Nat} {peer : Peer} (h : s.world.HasPeer i peer) (b : Act) :
    (s.act b).world.HasPeer i peer := by
  have hpeers := peers_act b s
  cases hposted : s.posted? b with
  | none =>
    rw [hposted] at hpeers
    obtain ⟨n, hn⟩ := h
    exact ⟨n, by rw [hpeers]; exact hn⟩
  | some p =>
    rw [hposted] at hpeers
    exact h.reached p hpeers

/-- A task that is not moved stays as it is, but for marks. -/
theorem Sound.kept_of_other (h : s.Sound) {t : Task} (ht : t ∈ s.world.tasks) {b : Act}
    (hb : b ≠ .move (.task t.id)) : ∃ u ∈ (s.act b).world.tasks, u.id = t.id ∧ u.job = t.job ∧
      u.stage = t.stage ∧ u.isBusy = t.isBusy ∧
      (u.isDropped = true → t.isDropped = true ∨ b = .drop t.id) := by
  cases h.leaving ht b with
  | leaves pubs o hmove => exact absurd hmove hb
  | cleared hmove => exact absurd hmove hb
  | stays u W hfate hW hu ho =>
    refine ⟨u, hu, hfate.id_eq, hfate.job_eq.2, ?_⟩
    cases hfate with
    | kept hne => exact ⟨rfl, rfl, .inl⟩
    | cancelled hcancel => exact ⟨rfl, rfl, .inl⟩
    | dropped hdrop => exact ⟨rfl, rfl, fun _ => .inr hdrop⟩
    | still hmove => exact absurd hmove hb
    | moved hmove => exact absurd hmove hb

variable {peer : Peer} {actor : Actor} {op : Operation} {a : Answer op} {id : WorkId}
  {wasDropped : Prop} {hs : List Handing}

/-- Whether a push is over, by how its POST ended: the task is gone, with what is reported of the
POST for its only outcome. -/
def IsOver (s : Scene) (id : WorkId) (ending : Ending) : Prop :=
  (∀ u ∈ s.world.tasks, u.id ≠ id) ∧ ∃ o, ending.Reports o ∧ s.world.outcomes id = o.toList

/-- How far a task has come that pushes an answer, with what it has handed to its peer. -/
inductive IsPushing (peer : Peer) (actor : Actor) {op : Operation} (a : Answer op) (id : WorkId)
    (wasDropped : Prop) (s : Scene) : List Handing → Prop where
  | ahead (t : Task) (ht : t ∈ s.world.tasks) (hid : t.id = id) (hjob : t.job = .push actor op a)
      (hdropped : t.isDropped = true → wasDropped) (hst : t.stage = .fresh) :
      IsPushing peer actor a id wasDropped s []
  /-- The peer has the POST, and the task is woken when the reply is carried out. -/
  | underway (t : Task) (ht : t ∈ s.world.tasks) (hid : t.id = id) (hjob : t.job = .push actor op a)
      (hdropped : t.isDropped = true → wasDropped) (time n : Nat) (x : Handing)
      (hx : x = handed peer actor a time n)
      (hst : t.stage = .pushing { x.post with stage := .underway x.due x.reply })
      (hset : s.world.now < x.due → ⟨x.due, .task id⟩ ∈ s.world.alarms)
      (hwoken : x.due ≤ s.world.now → .task id ∈ s.world.ready ∨ t.isBusy = true) :
      IsPushing peer actor a id wasDropped s [x]
  | ended (time n : Nat) (x : Handing) (hx : x = handed peer actor a time n)
      (hover : s.IsOver id x.reply.ending) : IsPushing peer actor a id wasDropped s [x]
  | cleared (hgone : ∀ u ∈ s.world.tasks, u.id ≠ id) (ho : s.world.outcomes id = [])
      (hdropped : wasDropped) (hs : List Handing)
      (hhs : hs = [] ∨ ∃ time n, hs = [handed peer actor a time n]) :
      IsPushing peer actor a id wasDropped s hs

/-! ### Moves of a task that pushes -/

/-- The move of a task that pushes is a move of its POST. -/
theorem Sound.act_of_push (h : s.Sound) {t : Task} (ht : t ∈ s.world.tasks)
    (hd : (t.isDropped && !t.isBusy) = false) (hjob : t.job = .push actor op a) {p : Post}
    (hp : t.push? = some p) : s.handing? (.move (.task t.id)) = s.world.handing? p ∧
      ∃ ready, (s.act (.move (.task t.id))).world =
        World.movePush t actor a p { s.world with ready } := by
  obtain ⟨ready, hact⟩ := act_moveTask t.id s
  have htask : s.world.task? t.id = some t := h.seated.task?_eq ht
  have htask' : ({ s.world with ready } : World).task? t.id = some t := htask
  refine ⟨?_, ready, ?_⟩
  · rw [handing?, posted?, htask, Option.bind_some, hd, hp]
    rfl
  · rw [hact, World.moveTask, htask']
    dsimp only
    rw [hd, if_neg Bool.false_ne_true]
    unfold Task.push? at hp
    rw [hjob] at hp
    cases hst : t.stage with
    | fresh =>
      rw [hst] at hp
      cases hp
      simp only [World.begin, hjob]
    | pushing q =>
      rw [hst] at hp
      cases hp
      simp only [hjob]
    -- At every other stage the task has no POST of its own.
    | _ => simp [hst] at hp

/-- A task that is dropped makes no POST any more. -/
theorem Sound.act_of_cleared (h : s.Sound) {t : Task} (ht : t ∈ s.world.tasks)
    (hd : (t.isDropped && !t.isBusy) = true) : s.handing? (.move (.task t.id)) = none := by
  have htask : s.world.task? t.id = some t := h.seated.task?_eq ht
  rw [handing?, posted?, htask, Option.bind_some, hd]
  rfl

theorem handing?_of_gone (hgone : ∀ u ∈ s.world.tasks, u.id ≠ id) :
    s.handing? (.move (.task id)) = none := by
  have htask : s.world.task? id = none := by
    refine List.find?_eq_none.mpr fun u hu hid => ?_
    exact hgone u hu (of_decide_eq_true hid)
  rw [handing?, posted?, htask]
  rfl

/-- The first move of a task that pushes hands its POST over. -/
private theorem Sound.isPushing_ahead (h : s.Sound)
    (hpeer : s.world.HasPeer actor.correlator.peer peer) {t : Task} (ht : t ∈ s.world.tasks)
    (hjob : t.job = .push actor op a) (hdropped : t.isDropped = true → wasDropped)
    (hst : t.stage = .fresh) :
    (s.act (.move (.task t.id))).IsPushing peer actor a t.id wasDropped
      (s.handing? (.move (.task t.id))).toList := by
  cases hd : t.isDropped && !t.isBusy with
  | true =>
    obtain ⟨hgone, ho⟩ := h.cleared_act ht hd
    rw [h.act_of_cleared ht hd]
    rw [Bool.and_eq_true] at hd
    exact .cleared hgone ho (hdropped hd.1) [] (.inl rfl)
  | false =>
    have hp : t.push? = some (pushPost actor a) := by
      rw [Task.push?, hst, hjob]
      rfl
    obtain ⟨n, hn⟩ := hpeer
    obtain ⟨hhanding, ready, hact⟩ := h.act_of_push ht hd hjob hp
    obtain ⟨W, isBusy, hmove, htasks, hnow, halarm, hbusy⟩ :=
      World.movePush_of_unsent (w := { s.world with ready }) t actor a
        (p := pushPost actor a) hn rfl rfl
    rw [hmove] at hact
    rw [hhanding, World.handing?_of_unsent hn rfl]
    let x : Handing := handed peer actor a s.world.now n
    let u : Task :=
      { t with stage := .pushing { x.post with stage := .underway x.due x.reply }, isBusy }
    have hu : u ∈ (s.act (.move (.task t.id))).world.tasks := by
      rw [hact]
      exact World.mem_putTask.mpr (.inr ⟨rfl, t, htasks ▸ ht, rfl⟩)
    have hnow' : (s.act (.move (.task t.id))).world.now = s.world.now := h.now_act _
    refine .underway u hu rfl hjob hdropped s.world.now n x rfl rfl (fun hlate => ?_)
      (fun hdue => .inr (hbusy ?_))
    · rw [hnow'] at hlate
      have hdelay : x.reply.delay ≠ 0 := by
        unfold Handing.due at hlate
        intro hzero
        rw [hzero] at hlate
        exact Nat.lt_irrefl _ hlate
      rw [hact]
      exact halarm hdelay
    · rw [hnow'] at hdue
      change s.world.now + x.reply.delay ≤ s.world.now at hdue
      change x.reply.delay = 0
      omega

/-- Later moves hand nothing over; the task ends with the reply when it is carried out. -/
private theorem Sound.isPushing_underway (h : s.Sound)
    (hpeer : s.world.HasPeer actor.correlator.peer peer) {t : Task} (ht : t ∈ s.world.tasks)
    (hjob : t.job = .push actor op a) (hdropped : t.isDropped = true → wasDropped) {x : Handing}
    {time n : Nat} (hx : x = handed peer actor a time n)
    (hst : t.stage = .pushing { x.post with stage := .underway x.due x.reply })
    (hset : s.world.now < x.due → ⟨x.due, .task t.id⟩ ∈ s.world.alarms) :
    s.handing? (.move (.task t.id)) = none ∧
      (s.act (.move (.task t.id))).IsPushing peer actor a t.id wasDropped [x] := by
  cases hd : t.isDropped && !t.isBusy with
  | true =>
    obtain ⟨hgone, ho⟩ := h.cleared_act ht hd
    refine ⟨h.act_of_cleared ht hd, ?_⟩
    rw [Bool.and_eq_true] at hd
    exact .cleared hgone ho (hdropped hd.1) [x] (.inr ⟨time, n, by rw [hx]⟩)
  | false =>
    have hp : t.push? = some { x.post with stage := .underway x.due x.reply } := by
      rw [Task.push?, hst, hjob]
    obtain ⟨m, hm⟩ := hpeer
    have hm : s.world.peers[x.post.peer]? = some { peer with posts := m } := by
      rw [hx]
      exact hm
    obtain ⟨hhanding, ready, hact⟩ := h.act_of_push ht hd hjob hp
    refine ⟨hhanding.trans (World.handing?_of_sent rfl), ?_⟩
    have hnow : (s.act (.move (.task t.id))).world.now = s.world.now := h.now_act _
    rcases World.movePush_of_underway (w := { s.world with ready })
      (p := { x.post with stage := .underway x.due x.reply }) t actor a hm rfl with
      ⟨hlate, hmove⟩ | ⟨-, W, o, hmove, htasks, hended, hreports⟩
    · rw [hmove] at hact
      have hu : { t with isBusy := false } ∈ (s.act (.move (.task t.id))).world.tasks := by
        rw [hact]
        exact World.mem_putTask.mpr (.inr ⟨by rw [hst], t, ht, rfl⟩)
      refine .underway _ hu rfl hjob hdropped time n x hx hst (fun hlate' => ?_) (fun hdue => ?_)
      · exact h.alarm_act (hset hlate) _ hlate'
      · rw [hnow] at hdue
        exact absurd hdue (Nat.not_le_of_lt hlate)
    · rw [hmove] at hact
      refine .ended time n x hx ⟨fun u hu => ?_, o, hreports, ?_⟩
      · rw [hact] at hu
        exact of_decide_eq_true (List.mem_filter.mp hu).2
      · have hnone : W.outcomes t.id = [] :=
          (World.outcomes_congr hended t.id).trans (h.outcomes_of_mem ht)
        rw [hact]
        cases o with
        | none => exact (World.outcomes_congr (List.append_nil _) t.id).trans hnone
        | some o =>
          rw [World.outcomes_more rfl, hnone, if_pos rfl]
          rfl

theorem IsPushing.weaken {wasDropped' : Prop} (h : s.IsPushing peer actor a id wasDropped hs)
    (himp : wasDropped → wasDropped') : s.IsPushing peer actor a id wasDropped' hs := by
  cases h with
  | ahead t ht hid hjob hdropped hst => exact .ahead t ht hid hjob (himp ∘ hdropped) hst
  | underway t ht hid hjob hdropped time n x hx hst hset hwoken =>
    exact .underway t ht hid hjob (himp ∘ hdropped) time n x hx hst hset hwoken
  | ended time n x hx hover => exact .ended time n x hx hover
  | cleared hgone ho hdropped hs hhs => exact .cleared hgone ho (himp hdropped) hs hhs

theorem Sound.isOver_act (h : s.Sound) (hid : id < s.world.nextId) {ending : Ending}
    (hover : s.IsOver id ending) (b : Act) : (s.act b).IsOver id ending := by
  obtain ⟨hgone, o, hreports, ho⟩ := hover
  obtain ⟨-, hgone', hsame⟩ := h.gone_act hid hgone b
  exact ⟨hgone', o, hreports, hsame.trans ho⟩

/-- A move of the task takes its push from where it has come to the next. -/
private theorem Sound.isPushing_move (h : s.Sound)
    (hpeer : s.world.HasPeer actor.correlator.peer peer)
    (hid : id < s.world.nextId) (hp : s.IsPushing peer actor a id wasDropped hs) :
    (s.act (.move (.task id))).IsPushing peer actor a id wasDropped
      (hs ++ (s.handing? (.move (.task id))).toList) := by
  cases hp with
  | ahead t ht htid hjob hdropped hst =>
    subst htid
    exact h.isPushing_ahead hpeer ht hjob hdropped hst
  | underway t ht htid hjob hdropped time n x hx hst hset hwoken =>
    subst htid
    obtain ⟨hnone, hnext⟩ := h.isPushing_underway hpeer ht hjob hdropped hx hst hset
    rw [hnone]
    exact hnext
  | ended time n x hx hover =>
    rw [handing?_of_gone hover.1]
    exact .ended time n x hx (h.isOver_act hid hover _)
  | cleared hgone ho hdropped hs hhs =>
    obtain ⟨-, hgone', hsame⟩ := h.gone_act hid hgone (.move (.task id))
    rw [handing?_of_gone hgone]
    exact .cleared hgone' (hsame.trans ho) hdropped _ (by rwa [Option.toList_none, List.append_nil])

/-- An act that is no move of the task leaves its push where it is. -/
private theorem Sound.isPushing_other (h : s.Sound) (hid : id < s.world.nextId)
    (hp : s.IsPushing peer actor a id wasDropped hs) {b : Act} (hb : b ≠ .move (.task id)) :
    (s.act b).IsPushing peer actor a id (wasDropped ∨ b = .drop id) hs := by
  cases hp with
  | ahead t ht htid hjob hdropped hst =>
    subst htid
    obtain ⟨u, hu, huid, hujob, hust, -, hud⟩ := h.kept_of_other ht hb
    exact .ahead u hu huid (hujob.trans hjob) (fun hd => (hud hd).imp_left hdropped)
      (hust.trans hst)
  | underway t ht htid hjob hdropped time n x hx hst hset hwoken =>
    subst htid
    obtain ⟨u, hu, huid, hujob, hust, hbusy, hud⟩ := h.kept_of_other ht hb
    -- The alarm stays until it rings, and who has been woken stays in the queue until moved.
    refine .underway u hu huid (hujob.trans hjob) (fun hd => (hud hd).imp_left hdropped) time n x
      hx (hust.trans hst) (fun hlate => ?_) (fun hdue => ?_)
    · exact h.alarm_act (hset (Nat.lt_of_le_of_lt (h.now_le b) hlate)) b hlate
    · by_cases hbefore : s.world.now < x.due
      · exact .inl (h.alarm_rings (hset hbefore) hbefore hdue)
      · exact (hwoken (Nat.le_of_not_lt hbefore)).imp (fun hr => h.ready_act hr hb) hbusy.trans
  | ended time n x hx hover => exact .ended time n x hx (h.isOver_act hid hover b)
  | cleared hgone ho hdropped hs hhs =>
    obtain ⟨-, hgone', hsame⟩ := h.gone_act hid hgone b
    exact .cleared hgone' (hsame.trans ho) (.inl hdropped) hs hhs

/-- An act takes a push from where it has come to the next. -/
theorem Sound.isPushing_act (h : s.Sound) (hpeer : s.world.HasPeer actor.correlator.peer peer)
    (hid : id < s.world.nextId) (hp : s.IsPushing peer actor a id wasDropped hs) (b : Act) :
    (s.act b).IsPushing peer actor a id (wasDropped ∨ b = .drop id)
      (hs ++ if b.isMoveOf id then (s.handing? b).toList else []) := by
  by_cases hb : b = .move (.task id)
  · rw [if_pos (Act.isMoveOf_iff.mpr hb), hb]
    exact (h.isPushing_move hpeer hid hp).weaken .inl
  · rw [if_neg fun hmove => hb (Act.isMoveOf_iff.mp hmove), List.append_nil]
    exact h.isPushing_other hid hp hb

/-- After acts a push is where the acts have taken it. -/
theorem Sound.isPushing_after (h : s.Sound) (hpeer : s.world.HasPeer actor.correlator.peer peer)
    (hid : id < s.world.nextId) (hp : s.IsPushing peer actor a id wasDropped hs) (acts : List Act) :
    (s.after acts).IsPushing peer actor a id (wasDropped ∨ .drop id ∈ acts)
      (hs ++ s.handings id acts) := by
  -- What is behind the task grows by each act: what it has handed over, and whether it was dropped.
  induction acts generalizing s wasDropped hs with
  | nil =>
    rw [handings, List.append_nil]
    exact hp.weaken .inl
  | cons b acts ih =>
    have hnext := ih (h.act b) (hasPeer_act hpeer b) (Nat.lt_of_lt_of_le hid (h.nextId_act b))
      (h.isPushing_act hpeer hid hp b)
    rw [handings, ← List.append_assoc]
    refine hnext.weaken fun hdropped => ?_
    rw [List.mem_cons, eq_comm, ← or_assoc]
    exact hdropped

/-! ### What else a push does -/

/-- While a task pushes, it does nothing in its moves but hand over its POST. -/
private theorem Sound.onlyPosts_of_push (h : s.Sound) {t : Task} (ht : t ∈ s.world.tasks)
    (hjob : t.job = .push actor op a) {p : Post} (hp : t.push? = some p) :
    s.world.OnlyPosts (s.act (.move (.task t.id))).world (s.handing? (.move (.task t.id))) := by
  cases hd : t.isDropped && !t.isBusy with
  | false =>
    obtain ⟨hhanding, ready, hact⟩ := h.act_of_push ht hd hjob hp
    have hmove := World.onlyPosts_movePush t actor a p { s.world with ready }
    rw [hhanding, hact]
    exact ⟨hmove.events, hmove.peers, hmove.couriers, hmove.registry, hmove.next, hmove.links⟩
  | true =>
    obtain ⟨ready, hact⟩ := act_moveTask t.id s
    have htask : ({ s.world with ready } : World).task? t.id = some t := h.seated.task?_eq ht
    have hcleared : World.moveTask t.id { s.world with ready } =
        World.clear t { s.world with ready } := by
      rw [World.moveTask, htask]
      exact if_pos hd
    have hclear : World.clear t { s.world with ready } =
        { s.world with ready, tasks := s.world.tasks.filter (·.id ≠ t.id) } := by
      unfold Task.push? at hp
      cases hst : t.stage with
      | fresh => simp only [World.clear, hst]
      | pushing q => simp only [World.clear, hst]
      | _ => simp [hst] at hp
    rw [h.act_of_cleared ht hd, hact, hcleared, hclear]
    exact ⟨(List.append_nil _).symm, rfl, rfl, rfl, rfl, rfl⟩

/-- A task that pushes does nothing in its moves but hand over its POST, and nothing once it has
ended. -/
theorem Sound.onlyPosts_act (h : s.Sound) (hp : s.IsPushing peer actor a id wasDropped hs) :
    s.world.OnlyPosts (s.act (.move (.task id))).world (s.handing? (.move (.task id))) := by
  have hquiet : (∀ u ∈ s.world.tasks, u.id ≠ id) →
      s.world.OnlyPosts (s.act (.move (.task id))).world (s.handing? (.move (.task id))) := by
    intro hgone
    obtain ⟨ready, hact⟩ := act_moveTask id s
    have htask : ({ s.world with ready } : World).task? id = none :=
      List.find?_eq_none.mpr fun u hu huid => hgone u hu (of_decide_eq_true huid)
    rw [World.moveTask, htask] at hact
    rw [handing?_of_gone hgone, hact]
    exact ⟨(List.append_nil _).symm, rfl, rfl, rfl, rfl, rfl⟩
  cases hp with
  | ahead t ht hid hjob hdropped hst =>
    subst hid
    exact h.onlyPosts_of_push ht hjob (p := pushPost actor a) (by rw [Task.push?, hst, hjob]; rfl)
  | underway t ht hid hjob hdropped time n x hx hst hset hwoken =>
    subst hid
    exact h.onlyPosts_of_push ht hjob (by rw [Task.push?, hst, hjob])
  | ended time n x hx hover => exact hquiet hover.1
  | cleared hgone ho hdropped hs hhs => exact hquiet hgone

/-! ### The whole -/

/-- How a client pushes an answer in the course of acts: once, without doing anything else, and with
the reply of its peer for a result, if that can be had. -/
structure PushesOnce (s : Scene) (t : Task) (peer : Peer) (actor : Actor) {op : Operation}
    (a : Answer op) (acts : List Act) : Prop where
  /-- The moves of the task do nothing but hand over POSTs, -/
  moves : ∀ earlier later, acts = earlier ++ .move (.task t.id) :: later →
    (s.after earlier).world.OnlyPosts ((s.after earlier).act (.move (.task t.id))).world
      ((s.after earlier).handing? (.move (.task t.id)))
  /-- and there is one of them at most, with the bytes of the answer. -/
  once : s.handings t.id acts = [] ∨ ∃ time n, s.handings t.id acts = [handed peer actor a time n]
  /-- The task has a result only after it: what the peer replied. -/
  ends : (s.after acts).world.outcomes t.id = [] ∨ ∃ time n o,
    s.handings t.id acts = [handed peer actor a time n] ∧ (s.after acts).world.outcomes t.id = [o] ∧
      (peer.react n a.encode).ending.Reports (some o)
  /-- Nothing keeps the task from its end: where nothing can go on by itself, its push is over, or
  it is woken when the reply is carried out. -/
  goesOn : t.isDropped = false → .drop t.id ∉ acts →
    (s.after acts).IsQuiet → ∃ time n, s.handings t.id acts = [handed peer actor a time n] ∧
      ((s.after acts).IsOver t.id (peer.react n a.encode).ending ∨
        (s.after acts).world.now < (handed peer actor a time n).due ∧
          ⟨(handed peer actor a time n).due, .task t.id⟩ ∈ (s.after acts).world.alarms)

theorem IsPushing.once (hp : s.IsPushing peer actor a id wasDropped hs) :
    hs = [] ∨ ∃ time n, hs = [handed peer actor a time n] := by
  cases hp with
  | ahead => exact .inl rfl
  | underway t ht hid hjob hdropped time n x hx => exact .inr ⟨time, n, by rw [hx]⟩
  | ended time n x hx => exact .inr ⟨time, n, by rw [hx]⟩
  | cleared hgone ho hdropped hs hhs => exact hhs

theorem Sound.isPushing_ends (h : s.Sound) (hp : s.IsPushing peer actor a id wasDropped hs) :
    s.world.outcomes id = [] ∨ ∃ time n o, hs = [handed peer actor a time n] ∧
      s.world.outcomes id = [o] ∧ (peer.react n a.encode).ending.Reports (some o) := by
  cases hp with
  | ahead t ht hid => exact .inl (hid ▸ h.outcomes_of_mem ht)
  | underway t ht hid => exact .inl (hid ▸ h.outcomes_of_mem ht)
  | ended time n x hx hover =>
    subst hx
    obtain ⟨-, o, hreports, ho⟩ := hover
    cases o with
    | none => exact .inl ho
    | some o => exact .inr ⟨time, n, o, rfl, ho, hreports⟩
  | cleared hgone ho => exact .inl ho

/-- Where nothing can go on by itself, a push that was not dropped is over, or it has an alarm. -/
theorem Sound.isPushing_of_quiet (h : s.Sound) (hp : s.IsPushing peer actor a id wasDropped hs)
    (hdropped : ¬ wasDropped) (hquiet : s.IsQuiet) :
    ∃ time n, hs = [handed peer actor a time n] ∧
      (s.IsOver id (peer.react n a.encode).ending ∨
        s.world.now < (handed peer actor a time n).due ∧
          ⟨(handed peer actor a time n).due, .task id⟩ ∈ s.world.alarms) := by
  cases hp with
  | ahead t ht hid hjob hd hst =>
    have hidle := (h.stages_of_quiet hquiet ht).1 hst
    simp only [Task.IsIdle, hst, hjob, Job.errand?] at hidle
  | underway t ht hid hjob hd time n x hx hst hset hwoken =>
    subst hx
    have hlate : s.world.now < (handed peer actor a time n).due := by
      by_contra hdue
      rcases hwoken (Nat.le_of_not_lt hdue) with hready | hbusy
      · rw [hquiet.1] at hready
        cases hready
      · rw [hquiet.2 t ht] at hbusy
        cases hbusy
    exact ⟨time, n, rfl, .inr ⟨hlate, hset hlate⟩⟩
  | ended time n x hx hover =>
    subst hx
    exact ⟨time, n, rfl, .inl hover⟩
  | cleared hgone ho hd => exact absurd hd hdropped

theorem Sound.pushesOnce (h : s.Sound) {t : Task} (ht : t ∈ s.world.tasks) (hst : t.stage = .fresh)
    (hjob : t.job = .push actor op a) (hpeer : s.world.HasPeer actor.correlator.peer peer)
    (acts : List Act) : s.PushesOnce t peer actor a acts := by
  have hid : t.id < s.world.nextId := h.seated.ids_lt t ht
  have hbegin : s.IsPushing peer actor a t.id (t.isDropped = true) [] :=
    .ahead t ht rfl hjob (fun hd => hd) hst
  have hrun := fun acts => h.isPushing_after hpeer hid hbegin acts
  refine ⟨fun earlier later hacts => ?_, (hrun acts).once,
    (h.after acts).isPushing_ends (hrun acts), fun hd hdrop hquiet => ?_⟩
  · exact (h.after earlier).onlyPosts_act (hrun earlier)
  · refine (h.after acts).isPushing_of_quiet (hrun acts) ?_ hquiet
    rintro (hdropped | hmem)
    · rw [hd] at hdropped
      cases hdropped
    · exact hdrop hmem

/-- A client publishes an answer once on its medium, on the key of the operation and the
transaction, or pushes it once to its peer, in either mode; the bytes are the same, and
nothing else is done. -/
theorem answers_go_out_once {files : Files} {settings : Settings} {peer : Option Peer}
    {medium : Option Medium} {client : Client Peer Medium}
    (hbuild : (Client.build files settings Peer.unreachable peer medium).1 = .ok client) (i : Nat)
    {op : Operation} (a : Answer op) :
    (client.isAsync = false → RefusesToPublish (placed client i) a) ∧
    (client.isAsync = true → ∃ m, medium = some m ∧ PublishesOnce (placed client i) a m
      ⟨settings.keys.key op.requestTag a.base.transactionID, a.encode⟩) ∧
    ∀ (s : Scene) (before : List Act) (t : Task), s.IsOpening → t ∈ (s.after before).world.tasks →
      t.stage = .fresh → t.job = .push (placed client i) op a →
      (s.after before).world.HasPeer i client.correlator.peer →
      ∀ acts, (s.after before).PushesOnce t client.correlator.peer (placed client i) a acts := by
  obtain ⟨-, hpublisher, hasync⟩ := Client.publisher_of_build hbuild
  refine ⟨fun hsync => ?_, fun hmode => ?_, fun s before t hs ht hst hjob hpeer => ?_⟩
  · rw [hasync, Option.isSome_eq_false_iff, Option.isNone_iff_eq_none] at hsync
    rw [hsync] at hpublisher
    exact refusesToPublish a hpublisher
  · rw [hasync] at hmode
    obtain ⟨m, hm⟩ := Option.isSome_iff_exists.mp hmode
    have hpublisher : (placed client i).publisher = some ⟨m, settings.keys⟩ := by
      rw [placed, hpublisher, hm]
      rfl
    exact ⟨m, hm, publishesOnce a hpublisher⟩
  · exact (hs.sound_after before).pushesOnce ht hst hjob hpeer

/-- A peer that declines every POST, in bytes that are not all text. -/
def decliningPeer : Peer where
  name := some "c0"
  react _ _ := { ending := .answered ⟨503, [0x6E, 0x6F, 0xFF]⟩ }

/-- A client of this peer whose medium fails. -/
def unheardClient : Client Peer Medium where
  settings := roamingSettings
  correlator := ⟨decliningPeer,
    some ⟨.puppet "c0" { failure := some .cancelled }, .ofMillis 1000, .failFast⟩⟩
  publisher := some ⟨.puppet "c0" { failure := some .cancelled }, .standard⟩

/-- The failure of the medium is wrapped with its wording, and the bytes of the peer are mended. -/
theorem declined_answer_is_reported_on_both_ways :
    let client := placed unheardClient 0
    let begun := (opening [decliningPeer]).after
      [.start "t0" (.push client .homeNS (homeAnswer 7)) .never]
    (World.answer client (homeAnswer 7) {}).1 =
        .failed (.publish "request cancelled while awaiting answer") ∧
      (begun.after [.move (.task 0), .move (.task 0)]).world.outcomes 0 =
        [.failed (.unexpectedStatus 503 "no\uFFFD")] := by
  intro client begun
  have hbuilt : (Client.build [] roamingSettings Peer.unreachable (some decliningPeer)
      (some (.puppet "c0" { failure := some .cancelled }))).1 = .ok unheardClient := rfl
  obtain ⟨-, hpublish, hpush⟩ := answers_go_out_once hbuilt 0 (homeAnswer 7)
  constructor
  · obtain ⟨m, hm, hpublishes⟩ := hpublish rfl
    cases hm
    obtain ⟨ready, log, result, hanswer, hresult⟩ := hpublishes.atOnce {} _ rfl
    rw [hanswer]
    cases hresult with
    | refused htold =>
      cases htold with
      | other => rfl
  · let t : Task := { id := 0, name := "t0", job := .push client .homeNS (homeAnswer 7) }
    have honce : begun.PushesOnce t decliningPeer client (homeAnswer 7)
        [.move (.task 0), .move (.task 0)] :=
      hpush (opening [decliningPeer]) [.start "t0" (.push client .homeNS (homeAnswer 7)) .never] t
        (opening_isOpening _) (List.mem_singleton_self t) rfl rfl ⟨0, rfl⟩ _
    have hgoesOn := honce.goesOn rfl (by simp)
    generalize hs : begun.after [.move (.task 0), .move (.task 0)] = s at hgoesOn ⊢
    have hnone : s.world.tasks = [] ∧ s.world.ready = [] ∧ s.world.alarms = [] := by
      rw [← hs]
      exact ⟨rfl, rfl, rfl⟩
    have hquiet : s.IsQuiet := by
      refine ⟨hnone.2.1, fun u hu => ?_⟩
      rw [hnone.1] at hu
      cases hu
    obtain ⟨time, n, -, ⟨-, o, hreports, ho⟩ | ⟨-, halarm⟩⟩ := hgoesOn hquiet
    · refine ho.trans ?_
      cases hreports with
      | acknowledged _ hstatus => cases hstatus
      | unexpected _ _ text htext =>
        rw [Text.readsAs_iff.mp htext]
        rfl
    · rw [hnone.2.2] at halarm
      cases halarm

end Scene

end Roaming.Simulation
