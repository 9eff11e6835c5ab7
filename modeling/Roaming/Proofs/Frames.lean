import Roaming.Proofs.Acts

/-!
# What does not look at the POSTs

Most of what happens in a world looks neither at the POSTs that are under way nor at the peers, and
leaves both as they are: with other POSTs and peers it does the same (`World.withPosts`).
-/

set_option autoImplicit false
set_option relaxedAutoImplicit false

namespace Roaming.Simulation

open Roaming.Text (Bytes utf8)
open Roaming.Redis (CallId)

/-- A peer that has got one more POST. -/
def Peer.reached (peer : Peer) : Peer := { peer with posts := peer.posts + 1 }

namespace World

/-- The world with these POSTs and peers instead of its own. -/
def withPosts (cs : List Courier) (ps : List Peer) (w : World) : World :=
  { w with couriers := cs, peers := ps }

/-- Whether as much is under way with these POSTs as with those of a world. -/
def AsOpen (w : World) (cs : List Courier) : Prop :=
  (cs.any fun c => c.post.ending?.isNone) = w.couriers.any fun c => c.post.ending?.isNone

variable (cs : List Courier) (ps : List Peer) (w : World)

theorem hasHub_withPosts {cs : List Courier} {w : World} (h : w.AsOpen cs) :
    (w.withPosts cs ps).hasHub = w.hasHub := by
  simp only [hasHub, withPosts]
  rw [h]

/-! ### The queue and the listeners -/

@[simp] theorem stations_withPosts : (w.withPosts cs ps).stations = w.stations := rfl

@[simp] theorem peers_withPosts : (w.withPosts cs ps).peers = ps := rfl

@[simp] theorem task?_withPosts (id : WorkId) : (w.withPosts cs ps).task? id = w.task? id := rfl

@[simp] theorem report_withPosts (lines : Log) :
    (w.withPosts cs ps).report lines = (w.report lines).withPosts cs ps := rfl

@[simp] theorem wake_withPosts (r : Runnable) :
    (w.withPosts cs ps).wake r = (w.wake r).withPosts cs ps := by
  unfold wake withPosts
  split <;> rfl

@[simp] theorem wakeAll_withPosts (rs : List Runnable) :
    (w.withPosts cs ps).wakeAll rs = (w.wakeAll rs).withPosts cs ps :=
  List.foldl_hom (withPosts cs ps) (fun w r => wake_withPosts cs ps w r)

@[simp] theorem publishOnHub_withPosts (key : Key) (payload : Bytes) :
    (w.withPosts cs ps).publishOnHub key payload = (w.publishOnHub key payload).withPosts cs ps :=
  wakeAll_withPosts cs ps
    (report (w.hub.publish key payload).2 { w with hub := (w.hub.publish key payload).1 }) _

@[simp] theorem closeHub_withPosts : (w.withPosts cs ps).closeHub = w.closeHub.withPosts cs ps :=
  wakeAll_withPosts cs ps (report (Hub.close w.hub).2 { w with hub := (Hub.close w.hub).1 }) _

theorem releaseOnHub_withPosts {cs : List Courier} {w : World} (h : w.AsOpen cs) (key : Key)
    (id : ListenerId) :
    (w.withPosts cs ps).releaseOnHub key id = (w.releaseOnHub key id).withPosts cs ps := by
  unfold releaseOnHub
  rw [hasHub_withPosts ps h]
  dsimp only
  split <;> rfl

/-! ### Stations -/

@[simp] theorem putStation_withPosts (i : Nat) (s : Station) (log : Log) :
    (w.withPosts cs ps).putStation i s log = (w.putStation i s log).withPosts cs ps :=
  wakeAll_withPosts cs ps (report log { w with stations := w.stations.set i s }) _

@[simp] theorem hangUpStopped_withPosts (i : Nat) :
    (w.withPosts cs ps).hangUpStopped i = (w.hangUpStopped i).withPosts cs ps := by
  unfold hangUpStopped
  rw [stations_withPosts]
  cases w.stations[i]? with
  | none => rfl
  | some s =>
    dsimp only
    split <;> rfl

@[simp] theorem bring_withPosts (sendings : List Sending) :
    (w.withPosts cs ps).bring sendings = (w.bring sendings).withPosts cs ps := by
  refine List.foldl_hom (withPosts cs ps) fun w sending => ?_
  rw [stations_withPosts]
  cases w.stations.findIdx? (·.listenLine = sending.connection) with
  | none => rfl
  | some i =>
    exact wake_withPosts cs ps { w with
      stations := w.stations.modify i fun s => { s with arrived := s.arrived ++ sending.bytes } } _

@[simp] theorem publishByBroker_withPosts (key : Key) (payload : Bytes) :
    (w.withPosts cs ps).publishByBroker key payload =
      (w.publishByBroker key payload).withPosts cs ps :=
  bring_withPosts cs ps w _

@[simp] theorem transmit_withPosts (i : Nat) (command : Redis.Command) :
    (w.withPosts cs ps).transmit i command = (w.transmit i command).withPosts cs ps := by
  unfold transmit
  rw [stations_withPosts]
  cases w.stations[i]? with
  | none => rfl
  | some s =>
    dsimp only
    cases s.request command with
    | none => rfl
    | some p =>
      obtain ⟨line, arguments⟩ := p
      let w₁ := record (.command arguments line)
        { w with broker := (w.broker.execute line arguments).1 }
      dsimp only
      split
      · exact (congrArg (bring _) (putStation_withPosts cs ps w₁ _ _ _)).trans
          (bring_withPosts cs ps _ _)
      · exact bring_withPosts cs ps w₁ _

@[simp] theorem takeCommand_withPosts (i : Nat) :
    (w.withPosts cs ps).takeCommand i = (w.takeCommand i).withPosts cs ps := by
  unfold takeCommand
  rw [stations_withPosts]
  cases w.stations[i]? with
  | none => rfl
  | some s =>
    dsimp only
    rw [putStation_withPosts]
    split
    · exact transmit_withPosts cs ps _ _ _
    · rfl

@[simp] theorem runAgent_withPosts (i : Nat) :
    (w.withPosts cs ps).runAgent i = (w.runAgent i).withPosts cs ps := by
  unfold runAgent
  rw [stations_withPosts]
  cases w.stations[i]? with
  | none => rfl
  | some s =>
    dsimp only
    rw [putStation_withPosts, takeCommand_withPosts, hangUpStopped_withPosts, stations_withPosts]
    split
    · exact wake_withPosts cs ps _ _
    · rfl

@[simp] theorem onLink_withPosts (i : Nat) (f : Redis.Link → Redis.Link × Log) :
    (w.withPosts cs ps).onLink i f = (w.onLink i f).withPosts cs ps := by
  unfold onLink
  rw [stations_withPosts]
  cases w.stations[i]? with
  | none => rfl
  | some s =>
    dsimp only
    rw [putStation_withPosts]
    exact wake_withPosts cs ps _ _

@[simp] theorem cut_withPosts (i : Nat) :
    (w.withPosts cs ps).cut i = (w.cut i).withPosts cs ps := by
  unfold cut
  rw [stations_withPosts]
  cases w.stations[i]? with
  | none => rfl
  | some s =>
    exact wake_withPosts cs ps { w with
      broker := w.broker.hangUp s.listenLine
      stations := w.stations.set i { s with isCut := true } } _

/-! ### Tasks -/

theorem release_withPosts {cs : List Courier} {w : World} (h : w.AsOpen cs) (sub : Subscription) :
    (w.withPosts cs ps).release sub = (w.release sub).withPosts cs ps := by
  cases sub with
  | hub key id => exact releaseOnHub_withPosts ps h key id
  | puppet name key script =>
    simp only [release]
    split <;> rfl
  | link i key id => exact onLink_withPosts cs ps w i (·.release key id)

@[simp] theorem sight_withPosts (sub : Subscription) :
    (w.withPosts cs ps).sight sub = w.sight sub := by
  cases sub <;> rfl

@[simp] theorem takeFrom_withPosts (sub : Subscription) :
    (w.withPosts cs ps).takeFrom sub = (w.takeFrom sub).withPosts cs ps := by
  cases sub with
  | hub key id => rfl
  | puppet name key script => rfl
  | link i key id =>
    simp only [takeFrom]
    rw [stations_withPosts]
    cases w.stations[i]? <;> rfl

theorem clear_withPosts {cs : List Courier} {w : World} (h : w.AsOpen cs) (t : Task) :
    (w.withPosts cs ps).clear t = (w.clear t).withPosts cs ps := by
  unfold clear
  cases t.stage with
  | armed route sub =>
    dsimp only
    rw [release_withPosts ps h]
    rfl
  | watching v =>
    dsimp only
    rw [release_withPosts ps h]
    rfl
  | subscribing route i call listener =>
    dsimp only
    cases t.job.errand? with
    | none => rfl
    | some e =>
      dsimp only
      rw [onLink_withPosts]
      rfl
  | fresh => rfl
  | awaiting courier => rfl
  | pushing p => rfl

/-- What does not look at the POSTs leaves them as they are. -/
theorem couriers_of_withPosts {F : World → World}
    (h : F (w.withPosts w.couriers w.peers) = (F w).withPosts w.couriers w.peers) :
    (F w).couriers = w.couriers ∧ (F w).peers = w.peers := by
  have hsame : F w = (F w).withPosts w.couriers w.peers := h
  rw [hsame]
  exact ⟨rfl, rfl⟩

theorem lookSubscribing_withPosts {cs : List Courier} {w : World} (h : w.AsOpen cs)
    (t : Task) (e : Errand) (route : AnswerRoute Medium) (i : Nat) (call : CallId)
    (listener : ListenerId) :
    (w.withPosts cs ps).lookSubscribing t e route i call listener =
      (w.lookSubscribing t e route i call listener).withPosts cs ps := by
  unfold lookSubscribing
  rw [stations_withPosts]
  cases (w.stations[i]?).bind (·.link.outcome? call) with
  | none => rfl
  | some outcome =>
    dsimp only
    rw [onLink_withPosts]
    cases outcome with
    | ok u => rfl
    | error f =>
      have hopen : (w.onLink i fun l => (l.fetched call, [])).AsOpen cs := by
        unfold AsOpen
        rw [(couriers_of_withPosts w (onLink_withPosts _ _ w i _)).1]
        exact h
      dsimp only
      rw [release_withPosts ps hopen]
      rfl

/-! ### Turns -/

end World

/-- The POST that a task looks at. -/
def Task.lookout? (t : Task) : Option WorkId :=
  match t.stage with
  | .watching v => some v.courier
  | .awaiting courier => some courier
  | _ => none

namespace World

/-- Whether other POSTs look to a task like those of a world. -/
structure AsSeen (w : World) (t : Task) (cs : List Courier) : Prop where
  isOpen : w.AsOpen cs
  ending : ∀ id, t.lookout? = some id →
    (cs.find? (·.id = id)).bind (·.post.ending?) = w.ending? id

variable {w : World} {t : Task} {cs : List Courier} (ps : List Peer)

theorem lookAsync_withPosts (h : w.AsSeen t cs) {v : Vigil} (hst : t.stage = .watching v) :
    (w.withPosts cs ps).lookAsync t v = (w.lookAsync t v).withPosts cs ps := by
  have hview : (w.withPosts cs ps).view t v = w.view t v := by
    have hsent : (w.withPosts cs ps).ending? v.courier = w.ending? v.courier :=
      h.ending v.courier (by rw [Task.lookout?, hst])
    unfold view
    rw [sight_withPosts, hsent]
    rfl
  unfold lookAsync
  rw [hview]
  dsimp only
  rw [report_withPosts]
  split
  · have hopen : (w.report (v.watch.poll (w.view t v)).2.2).AsOpen cs := h.isOpen
    rw [release_withPosts ps hopen]
    rfl
  · rfl

theorem lookSync_withPosts (h : w.AsSeen t cs) (key : Key) {courier : WorkId}
    (hst : t.stage = .awaiting courier) :
    (w.withPosts cs ps).lookSync t key courier = (w.lookSync t key courier).withPosts cs ps := by
  have hsent : (w.withPosts cs ps).ending? courier = w.ending? courier :=
    h.ending courier (by rw [Task.lookout?, hst])
  unfold lookSync
  rw [hsent]
  dsimp only
  split <;> rfl

/-- A POST that is handed out. -/
def dispatched (waiter : WorkId) (e : Errand) (w : World) : Courier :=
  ⟨w.nextId, waiter, { peer := e.caller.peer, body := e.body }⟩

theorem dispatch_withPosts (cs : List Courier) (waiter : WorkId) (e : Errand) (w : World) :
    (w.withPosts cs ps).dispatch waiter e.caller.peer e.body =
      (w.dispatch waiter e.caller.peer e.body).withPosts (cs ++ [w.dispatched waiter e]) ps := by
  unfold dispatch
  exact wake_withPosts _ ps { w with
    couriers := w.couriers ++ [⟨w.nextId, waiter, { peer := e.caller.peer, body := e.body }⟩]
    nextId := w.nextId + 1 } _

theorem launch_withPosts (cs : List Courier) (t : Task) (e : Errand) (route : AnswerRoute Medium)
    (sub : Subscription) (w : World) :
    (w.withPosts cs ps).launch t e route sub =
      (w.launch t e route sub).withPosts (cs ++ [w.dispatched t.id e]) ps := by
  unfold launch
  dsimp only
  rw [report_withPosts, dispatch_withPosts]
  rfl

/-- What a task hands out when it begins an exchange. -/
def begun (t : Task) (e : Errand) (w : World) : List Courier :=
  match e.caller.answers with
  | none => [w.dispatched t.id e]
  | some _ => []

theorem beginExchange_withPosts (cs : List Courier) (t : Task) (e : Errand) (w : World) :
    (w.withPosts cs ps).beginExchange t e =
      (w.beginExchange t e).withPosts (cs ++ w.begun t e) ps := by
  unfold beginExchange begun
  cases e.caller.answers with
  | none =>
    dsimp only
    rw [dispatch_withPosts]
    rfl
  | some route =>
    dsimp only
    rw [List.append_nil]
    cases route.medium with
    | hub name => rfl
    | puppet name script =>
      dsimp only
      cases script.failure <;> rfl
    | link i =>
      dsimp only
      rw [stations_withPosts]
      cases w.stations[i]? with
      | none => rfl
      | some s =>
        dsimp only
        rw [onLink_withPosts]
        rfl

/-- Whether something that is done in a world looks at no POST but the one that a task looks at, and
hands out these. -/
def Overlooks (w : World) (t : Task) (F : World → World) (new : List Courier) : Prop :=
  ∀ cs ps, w.AsSeen t cs → F (w.withPosts cs ps) = (F w).withPosts (cs ++ new) ps

theorem Overlooks.of_kept {F : World → World}
    (h : ∀ cs ps, w.AsSeen t cs → F (w.withPosts cs ps) = (F w).withPosts cs ps) :
    w.Overlooks t F [] := by
  intro cs ps hseen
  rw [List.append_nil]
  exact h cs ps hseen

/-- Where no POST is looked at there is always the world itself. -/
theorem AsSeen.refl (w : World) (t : Task) : w.AsSeen t w.couriers := ⟨rfl, fun _ _ => rfl⟩

theorem Overlooks.couriers_eq {F : World → World} {new : List Courier} (h : w.Overlooks t F new) :
    (F w).couriers = w.couriers ++ new ∧ (F w).peers = w.peers := by
  have hsame : F w = (F w).withPosts (w.couriers ++ new) w.peers :=
    h w.couriers w.peers (.refl w t)
  rw [hsame]
  exact ⟨rfl, rfl⟩

/-- Whether these POSTs are new when something was done in a world: each will be handed to its peer
when it is run. -/
structure HandsOut (w : World) (F : World → World) (new : List Courier) : Prop where
  id : ∀ c ∈ new, c.id = w.nextId
  unsent : ∀ c ∈ new, c.post.stage = .unsent
  ready : ∀ c ∈ new, .post c.id ∈ (F w).ready

theorem handsOut_nil (w : World) (F : World → World) : w.HandsOut F [] where
  id c hc := by cases hc
  unsent c hc := by cases hc
  ready c hc := by cases hc

theorem handsOut_dispatched {F : World → World} (waiter : WorkId) (e : Errand)
    (h : .post w.nextId ∈ (F w).ready) : w.HandsOut F [w.dispatched waiter e] := by
  constructor
  · intro c hc
    rw [List.mem_singleton.mp hc]
    rfl
  · intro c hc
    rw [List.mem_singleton.mp hc]
    rfl
  · intro c hc
    rw [List.mem_singleton.mp hc]
    exact h

theorem handsOut_begun {F : World → World} (t : Task) (e : Errand)
    (h : e.caller.answers = none → .post w.nextId ∈ (F w).ready) :
    w.HandsOut F (w.begun t e) := by
  unfold begun
  cases hroute : e.caller.answers with
  | none => exact handsOut_dispatched t.id e (h hroute)
  | some route => exact handsOut_nil w F

theorem ready_beginExchange (t : Task) {e : Errand} (h : e.caller.answers = none) (w : World) :
    .post w.nextId ∈ (w.beginExchange t e).ready := by
  unfold beginExchange
  rw [h]
  exact mem_ready_wake _ _

theorem overlooks_begin (hst : t.stage = .fresh) (hpush : t.push? = none) :
    ∃ new, w.HandsOut (begin t) new ∧ w.Overlooks t (begin t) new := by
  cases hjob : t.job with
  | exchange caller key body =>
    have hbegin : begin t = beginExchange t ⟨caller, key, body⟩ := by
      funext w
      rw [begin, hjob]
    rw [hbegin]
    exact ⟨_, handsOut_begun t _ fun h => ready_beginExchange t h w,
      fun cs ps _ => beginExchange_withPosts ps cs t _ w⟩
  | request actor op request =>
    have hbegin : begin t = fun w => (w.report [actor.requestLine request]).beginExchange t
        ⟨actor.correlator, actor.requestKey request, actor.requestBody request⟩ := by
      funext w
      rw [begin, hjob]
    rw [hbegin]
    exact ⟨_, handsOut_begun t _ fun h => ready_beginExchange t h (w.report _),
      fun cs ps _ => beginExchange_withPosts ps cs t _ (w.report _)⟩
  | push actor op answer => simp [Task.push?, hst, hjob] at hpush
  | refused refusal =>
    refine ⟨[], handsOut_nil w _, .of_kept fun cs ps _ => ?_⟩
    simp only [begin, hjob]
    rfl

/-- A turn of a task that pushes nothing looks at its own POST alone, and may hand out a new one. -/
theorem overlooks_moveTask {id : WorkId} (ht : w.task? id = some t)
    (hpush : (t.isDropped && !t.isBusy) = true ∨ t.push? = none) :
    ∃ new, w.HandsOut (moveTask id) new ∧ w.Overlooks t (moveTask id) new := by
  have htask : ∀ cs ps, (w.withPosts cs ps).task? id = some t := fun _ _ => ht
  -- It is enough to look at the piece that the stage of the task tells.
  have hpiece :
      ∀ F : World → World, (∀ cs ps, (w.withPosts cs ps).moveTask id = F (w.withPosts cs ps)) →
      (∃ new, w.HandsOut F new ∧ w.Overlooks t F new) →
      ∃ new, w.HandsOut (moveTask id) new ∧ w.Overlooks t (moveTask id) new := by
    rintro F hF ⟨new, hnew, h⟩
    have hself : w.moveTask id = F w := hF w.couriers w.peers
    refine ⟨new, ⟨hnew.id, hnew.unsent, hself ▸ hnew.ready⟩, fun cs ps hseen => ?_⟩
    rw [hF, hself]
    exact h cs ps hseen
  have hlook :
      ∀ F : World → World, (∀ cs ps, (w.withPosts cs ps).moveTask id = F (w.withPosts cs ps)) →
      (∀ cs ps, w.AsSeen t cs → F (w.withPosts cs ps) = (F w).withPosts cs ps) →
      ∃ new, w.HandsOut (moveTask id) new ∧ w.Overlooks t (moveTask id) new :=
    fun F hF h => hpiece F hF ⟨[], handsOut_nil w F, .of_kept h⟩
  have hstill : (∀ cs ps, (w.withPosts cs ps).moveTask id = w.withPosts cs ps) →
      ∃ new, w.HandsOut (moveTask id) new ∧ w.Overlooks t (moveTask id) new :=
    fun hF => hlook (fun w => w) hF fun _ _ _ => rfl
  by_cases hd : (t.isDropped && !t.isBusy) = true
  · refine hlook (clear t) (fun cs ps => ?_) fun cs ps hseen => clear_withPosts ps hseen.isOpen t
    simp only [moveTask, htask, if_pos hd]
  · have hpush' : t.push? = none := hpush.resolve_left hd
    cases hst : t.stage with
    | fresh =>
      refine hpiece (begin t) (fun cs ps => ?_) (overlooks_begin hst hpush')
      simp only [moveTask, htask, if_neg hd, hst]
    | subscribing route i call listener =>
      cases he : t.job.errand? with
      | none =>
        refine hstill fun cs ps => ?_
        simp only [moveTask, htask, if_neg hd, hst, he]
      | some e =>
        refine hlook (lookSubscribing t e route i call listener) (fun cs ps => ?_)
          fun cs ps hseen =>
          lookSubscribing_withPosts ps hseen.isOpen t e route i call listener
        simp only [moveTask, htask, if_neg hd, hst, he]
    | armed route sub =>
      cases he : t.job.errand? with
      | none =>
        refine hstill fun cs ps => ?_
        simp only [moveTask, htask, if_neg hd, hst, he]
      | some e =>
        refine hpiece (launch t e route sub) (fun cs ps => ?_)
          ⟨_, handsOut_dispatched t.id e (mem_ready_wake _ _),
            fun cs ps _ => launch_withPosts ps cs t e route sub w⟩
        simp only [moveTask, htask, if_neg hd, hst, he]
    | watching v =>
      refine hlook (lookAsync t v) (fun cs ps => ?_) fun cs ps hseen =>
        lookAsync_withPosts ps hseen hst
      simp only [moveTask, htask, if_neg hd, hst]
    | awaiting courier =>
      cases he : t.job.errand? with
      | none =>
        refine hstill fun cs ps => ?_
        simp only [moveTask, htask, if_neg hd, hst, he]
      | some e =>
        refine hlook (lookSync t e.key courier) (fun cs ps => ?_) fun cs ps hseen =>
          lookSync_withPosts ps hseen e.key hst
        simp only [moveTask, htask, if_neg hd, hst, he]
    | pushing p =>
      refine hstill fun cs ps => ?_
      cases hjob : t.job with
      | push actor op answer => simp [Task.push?, hst, hjob] at hpush'
      | _ => simp only [moveTask, htask, if_neg hd, hst, hjob]

/-! ### POSTs that are moved -/

/-- The peers after a POST was moved. -/
def reached (p : Post) (w : World) : List Peer :=
  match w.peers[p.peer]?, p.stage with
  | some peer, .unsent => w.peers.set p.peer peer.reached
  | _, _ => w.peers

theorem carryOut_withPosts (cs : List Courier) (outlet : Outlet) (reply : Reply) (p : Post)
    (w : World) : (w.withPosts cs ps).carryOut outlet reply p =
      ((w.carryOut outlet reply p).1, (w.carryOut outlet reply p).2.withPosts cs ps) := by
  unfold carryOut
  dsimp only
  rw [List.foldl_hom (withPosts cs ps) fun w pub => ?_, report_withPosts]
  cases outlet with
  | hub => exact publishOnHub_withPosts cs ps w pub.key pub.payload
  | broker => exact publishByBroker_withPosts cs ps w pub.key pub.payload

/-- A POST that is moved looks at no other, and changes nobody but its peer. -/
theorem movePost_withPosts (cs : List Courier) (owner : Runnable) (p : Post) (w : World) :
    (w.withPosts cs w.peers).movePost owner p =
      ((w.movePost owner p).1, (w.movePost owner p).2.withPosts cs (w.reached p)) := by
  unfold movePost reached
  rw [peers_withPosts]
  cases hpeer : w.peers[p.peer]? with
  | none => rfl
  | some peer =>
    dsimp only
    cases hst : p.stage with
    | unsent =>
      obtain ⟨name, react, outlet, posts⟩ := peer
      dsimp only
      cases name <;> split <;> rfl
    | underway due reply =>
      dsimp only
      show (if due ≤ w.now then _ else _) = _
      split
      · exact carryOut_withPosts w.peers cs peer.outlet reply p w
      · rfl
    | ended ending => rfl

theorem peers_movePost (owner : Runnable) (p : Post) (w : World) :
    (w.movePost owner p).2.peers = w.reached p := by
  have hsame := congrArg (fun x => x.2.peers) (movePost_withPosts w.couriers owner p w)
  exact hsame

private theorem peers_moveCourier (id : WorkId) (w : World) :
    (w.moveCourier id).peers = ((w.courier? id).map (w.reached ·.post)).getD w.peers := by
  unfold moveCourier
  cases hc : w.courier? id with
  | none => rfl
  | some c =>
    dsimp only [Option.map_some, Option.getD_some]
    by_cases hended : c.post.ending?.isSome
    · rw [if_pos hended]
      unfold Post.ending? at hended
      unfold reached
      cases hst : c.post.stage with
      | ended ending => cases w.peers[c.post.peer]? <;> rfl
      | unsent => rw [hst] at hended; cases hended
      | underway due reply => rw [hst] at hended; cases hended
    · rw [if_neg hended]
      have hput : ∀ (d : Courier) (W : World), (W.putCourier d).peers = W.peers := fun _ _ => rfl
      have hwake : ∀ (r : Runnable) (W : World), (W.wake r).peers = W.peers := fun r W =>
        (couriers_of_withPosts W (wake_withPosts _ _ W r)).2
      split
      · rw [hwake, hput, peers_movePost]
      · rw [hput, peers_movePost]

/-- A task that pushes looks at no POST of others. -/
theorem movePush_withPosts (cs : List Courier) {op : Operation} (t : Task) (actor : Actor)
    (answer : Answer op) (p : Post) (w : World) :
    (w.withPosts cs w.peers).movePush t actor answer p =
      (w.movePush t actor answer p).withPosts cs (w.reached p) := by
  unfold movePush
  rw [movePost_withPosts]
  dsimp only
  split
  · split
    · rw [if_pos (by assumption)]
      rfl
    · rw [if_neg (by assumption)]
      rfl
  · split <;> rfl

/-- The turn of a task that pushes looks at no POST of others. -/
theorem moveTask_of_push {w : World} {t : Task} {id : WorkId} {p : Post} (ht : w.task? id = some t)
    (hd : ¬ (t.isDropped && !t.isBusy) = true) (hp : t.push? = some p) (cs : List Courier) :
    (w.withPosts cs w.peers).moveTask id = (w.moveTask id).withPosts cs (w.reached p) := by
  have htask : (w.withPosts cs w.peers).task? id = some t := ht
  unfold Task.push? at hp
  split at hp
  · rename_i hst hjob
    cases hp
    simp only [moveTask, htask, ht, if_neg hd, hst, begin, hjob]
    exact movePush_withPosts ..
  · rename_i hst hjob
    cases hp
    simp only [moveTask, htask, ht, if_neg hd, hst, hjob]
    exact movePush_withPosts ..
  · cases hp

end World

namespace Scene

/-- The POST that an act moves, if it moves one. -/
def posted? (a : Act) (s : Scene) : Option Post :=
  match a with
  | .move (.post id) => (s.world.courier? id).map (·.post)
  | .move (.task id) =>
    (s.world.task? id).bind fun t => if t.isDropped && !t.isBusy then none else t.push?
  | _ => none

/-- A scene with these POSTs and peers instead of its own. -/
def withPosts (cs : List Courier) (ps : List Peer) (s : Scene) : Scene :=
  { s with world := s.world.withPosts cs ps }

@[simp] theorem world_withPosts (cs : List Courier) (ps : List Peer) (s : Scene) :
    (s.withPosts cs ps).world = s.world.withPosts cs ps := rfl

@[simp] theorem handles_withPosts (cs : List Courier) (ps : List Peer) (s : Scene) :
    (s.withPosts cs ps).handles = s.handles := rfl

/-- What begins a turn is taken out of the queue, and nothing else is done to the world. -/
theorem takeUp_eq (r : Runnable) (w : World) : ∃ rs, w.takeUp r = { w with ready := rs } ∧
    ∀ cs ps, (w.withPosts cs ps).takeUp r = ({ w with ready := rs } : World).withPosts cs ps := by
  have hbusy : ∀ cs ps, (w.withPosts cs ps).isBusy r = w.isBusy r := fun _ _ => by cases r <;> rfl
  unfold World.takeUp
  simp only [hbusy]
  split
  · exact ⟨w.ready, rfl, fun _ _ => rfl⟩
  · exact ⟨_, rfl, fun _ _ => rfl⟩

theorem act_moveTask (id : WorkId) (s : Scene) : ∃ ready,
    (s.act (.move (.task id))).world = World.moveTask id { s.world with ready } := by
  obtain ⟨ready, hready, -⟩ := takeUp_eq (.task id) s.world
  exact ⟨ready, congrArg (World.moveTask id) hready⟩

/-- Nothing but the tasks and the POSTs themselves looks at POSTs and at peers. -/
theorem act_withPosts {s : Scene} {cs : List Courier} (h : s.world.AsOpen cs) (ps : List Peer)
    {a : Act} (htask : ∀ id, a ≠ .move (.task id)) (hpost : ∀ id, a ≠ .move (.post id)) :
    (s.withPosts cs ps).act a = (s.act a).withPosts cs ps := by
  have hworld : ∀ {w w' : World} (hs : List (Option Subscription)), w = w'.withPosts cs ps →
      (⟨w, hs⟩ : Scene) = (⟨w', hs⟩ : Scene).withPosts cs ps := fun hs hw => by rw [hw]; rfl
  cases a with
  | move r =>
    cases r with
    | task id => exact absurd rfl (htask id)
    | post id => exact absurd rfl (hpost id)
    | agent i =>
      obtain ⟨rs, hrs, hrs'⟩ := takeUp_eq (.agent i) s.world
      refine hworld s.handles ?_
      show ((s.world.withPosts cs ps).takeUp (.agent i)).runAgent i = _
      rw [hrs', World.runAgent_withPosts, hrs]
      rfl
  | start name job cancellation =>
    exact hworld s.handles (World.wake_withPosts cs ps (s.world.started name job cancellation) _)
  | cancel id =>
    refine hworld s.handles ?_
    unfold World.cancel
    rw [world_withPosts, World.task?_withPosts]
    cases s.world.task? id with
    | none => rfl
    | some t =>
      exact World.wake_withPosts cs ps (s.world.putTask { t with cancellation := .done }) _
  | drop id =>
    refine hworld s.handles ?_
    unfold World.drop
    rw [world_withPosts, World.task?_withPosts]
    cases s.world.task? id with
    | none => rfl
    | some t => exact World.wake_withPosts cs ps (s.world.putTask { t with isDropped := true }) _
  | ring time => exact hworld s.handles (World.wakeAll_withPosts cs ps (s.world.rung time) _)
  | publish key payload => exact hworld s.handles (World.publishOnHub_withPosts cs ps _ key payload)
  | close => exact hworld s.handles (World.closeHub_withPosts cs ps _)
  | listen place key =>
    cases place with
    | none => rfl
    | some i =>
      unfold act
      dsimp only
      rw [world_withPosts, World.stations_withPosts]
      cases s.world.stations[i]? with
      | none => rfl
      | some station => exact hworld _ (World.onLink_withPosts cs ps s.world i _)
  | receive n =>
    unfold act
    dsimp only
    rw [handles_withPosts]
    rcases s.handles[n]? with _ | _ | sub
    · rfl
    · rfl
    · exact hworld s.handles (World.takeFrom_withPosts cs ps s.world sub)
  | release n =>
    unfold act
    dsimp only
    rw [handles_withPosts]
    rcases s.handles[n]? with _ | _ | sub
    · rfl
    · rfl
    · exact hworld _ (World.release_withPosts ps h sub)
  | useLink i u => exact hworld s.handles (World.onLink_withPosts cs ps s.world i _)
  | bring sendings => exact hworld s.handles (World.bring_withPosts cs ps s.world sendings)
  | cut i => exact hworld s.handles (World.cut_withPosts cs ps s.world i)

/-- So POSTs and peers stay as they are unless a task or a POST is moved. -/
theorem couriers_act {s : Scene} {a : Act} (htask : ∀ id, a ≠ .move (.task id))
    (hpost : ∀ id, a ≠ .move (.post id)) :
    (s.act a).world.couriers = s.world.couriers ∧ (s.act a).world.peers = s.world.peers := by
  have hself : s.act a = (s.act a).withPosts s.world.couriers s.world.peers :=
    act_withPosts rfl s.world.peers htask hpost
  rw [hself]
  exact ⟨rfl, rfl⟩

private theorem peers_moveTask (id : WorkId) (s : Scene) {w : World}
    (hw : ∃ rs, w = { s.world with ready := rs }) :
    (w.moveTask id).peers = ((s.posted? (.move (.task id))).map w.reached).getD w.peers := by
  have hposted : s.posted? (.move (.task id)) =
      (w.task? id).bind fun t => if t.isDropped && !t.isBusy then none else t.push? := by
    obtain ⟨rs, rfl⟩ := hw
    rfl
  rw [hposted]
  cases ht : w.task? id with
  | none => simp only [World.moveTask, ht, Option.bind_none, Option.map_none, Option.getD_none]
  | some t =>
    rw [Option.bind_some]
    by_cases hpush : (t.isDropped && !t.isBusy) = true ∨ t.push? = none
    · obtain ⟨new, -, hover⟩ := World.overlooks_moveTask ht hpush
      rw [hover.couriers_eq.2]
      split
      · rfl
      · rename_i hd
        rw [hpush.resolve_left hd]
        rfl
    · rw [not_or] at hpush
      obtain ⟨hd, hne⟩ := hpush
      obtain ⟨p, hp⟩ := Option.ne_none_iff_exists'.mp hne
      rw [if_neg hd, hp, Option.map_some, Option.getD_some]
      exact congrArg World.peers (World.moveTask_of_push ht hd hp w.couriers)

/-- Only a POST that is moved reaches a peer. -/
theorem peers_act (a : Act) (s : Scene) :
    (s.act a).world.peers = ((s.posted? a).map s.world.reached).getD s.world.peers := by
  have hblind : (∀ id, a ≠ .move (.task id)) → (∀ id, a ≠ .move (.post id)) →
      (s.act a).world.peers = s.world.peers := fun htask hpost => (couriers_act htask hpost).2
  cases a with
  | move r =>
    obtain ⟨rs, hrs, -⟩ := takeUp_eq r s.world
    cases r with
    | agent i => exact hblind (by simp) (by simp)
    | post id =>
      show ((s.world.takeUp (.post id)).moveCourier id).peers = _
      rw [hrs, World.peers_moveCourier]
      simp only [posted?, Option.map_map]
      rfl
    | task id =>
      show ((s.world.takeUp (.task id)).moveTask id).peers = _
      rw [hrs]
      exact peers_moveTask id s ⟨rs, rfl⟩
  | _ => exact hblind (by simp) (by simp)

end Scene

end Roaming.Simulation
