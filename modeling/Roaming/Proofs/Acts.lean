import Roaming.Proofs.Interleaving

/-!
# Acts and their effects

Each listener is held by one task or by one handle. While its holder can rely on it
(`Scene.Seated`), what an act does to the exchanges is one of a few effects (`Effect`), and whoever
sees something new is woken.
-/

set_option autoImplicit false
set_option relaxedAutoImplicit false

namespace Roaming.Simulation

open Roaming.Text (Bytes)

/-- Who can hold a listener. -/
inductive Owner where
  | task (id : WorkId)
  | handle (n : Nat)
deriving DecidableEq

/-- Whether a listener is held, given the tasks and the handles. -/
def HeldBy (tasks : List Task) (handles : List (Option Subscription)) (sub : Subscription) :
    Owner → Prop
  | .task id => ∃ t ∈ tasks, t.id = id ∧ t.subscription? = some sub
  | .handle n => handles[n]? = some (some sub)

namespace Scene

/-- Whether somebody holds a listener. -/
def Has (s : Scene) (o : Owner) (sub : Subscription) : Prop := HeldBy s.world.tasks s.handles sub o

end Scene

/-- Whether there is an inbox at a seat, whose id is not to be used again. -/
def World.Seats (w : World) (seat : Seat) : Prop :=
  ∃ l, w.listenersAt seat.1 = some l ∧ l.Holds seat.2 ∧ seat.2 < l.next

/-- What every act keeps up about listeners and those who hold them. -/
structure Scene.Seated (s : Scene) : Prop where
  ids : (s.world.tasks.map (·.id)).Nodup
  ids_lt : ∀ t ∈ s.world.tasks, t.id < s.world.nextId
  hub : s.world.hub.InOrder
  seats : ∀ o sub seat, s.Has o sub → sub.seat? = some seat → s.world.Seats seat
  unique : ∀ o o' sub sub' seat, s.Has o sub → s.Has o' sub' → sub.seat? = some seat →
    sub'.seat? = some seat → o = o'
  owned : ∀ key id, id ∈ s.world.hub.registry.on key → ∃ o, s.Has o (.hub key id)

/-! ### The effects of acts -/

/-- Whether an act does nothing to the exchanges. -/
def Act.IsAside (w : World) (handles : List (Option Subscription)) : Act → Prop
  | .move (.task id) => w.task? id = none
  | .move (.post id) => ∀ c, w.courier? id = some c → c.post.ending?.isSome
  | .move (.agent _) => True
  | .cancel id => w.task? id = none
  | .drop id => w.task? id = none
  | .listen (some i) _ => w.stations[i]? = none
  | .receive n => ∀ sub, handles[n]? ≠ some (some sub)
  | .release n => ∀ sub, handles[n]? ≠ some (some sub)
  | .useLink _ _ => True
  | .bring _ => True
  | .cut _ => True
  | _ => False

namespace World

/-- The world with one more task. -/
def started (name : String) (job : Job) (cancellation : Cancellation) (w : World) : World :=
  { w with
    tasks := w.tasks ++ [{ id := w.nextId, name, job, cancellation }]
    nextId := w.nextId + 1 }

/-- The world at a later time, without the alarms that were due. -/
def rung (time : Nat) (w : World) : World :=
  { w with
    now := max w.now time
    alarms := w.alarms.filter fun a => !decide (a.due ≤ time) }

end World

/-- What an act does to the exchanges: the world and the handles after it, and who was woken for
sure. -/
inductive Effect (w : World) (handles : List (Option Subscription)) :
    Act → World → List (Option Subscription) → List Runnable → Prop where
  | aside (a : Act) (h : a.IsAside w handles) : Effect w handles a w handles []
  | starts (name : String) (job : Job) (cancellation : Cancellation) :
      Effect w handles (.start name job cancellation) (w.started name job cancellation) handles
        [.task w.nextId]
  | turns (id : WorkId) (t : Task) (W : World) (ht : w.task? id = some t) (h : Turned w t W) :
      Effect w handles (.move (.task id)) W handles []
  | carries (id : WorkId) (c : Courier) (hc : w.courier? id = some c)
      (hopen : c.post.ending? = none) :
      Effect w handles (.move (.post id))
        ((w.offered (w.carries c.post)).putCourier { c with post := w.advanced c.post }) handles
        (if (w.advanced c.post).ending?.isSome then [.task c.waiter] else [])
  | cancels (id : WorkId) (t : Task) (ht : w.task? id = some t) :
      Effect w handles (.cancel id) (w.putTask { t with cancellation := .done }) handles [.task id]
  | drops (id : WorkId) (t : Task) (ht : w.task? id = some t) :
      Effect w handles (.drop id) (w.putTask { t with isDropped := true }) handles [.task id]
  | rings (time : Nat) :
      Effect w handles (.ring time) (w.rung time) handles
        ((w.alarms.filter fun a => a.due ≤ time).map Alarm.owner)
  | publishes (key : Key) (payload : Bytes) :
      Effect w handles (.publish key payload) (w.offered [⟨key, payload⟩]) handles []
  | closes : Effect w handles .close w.disconnected handles []
  | listens (place : Option Nat) (key : Key) (l : Listeners) (sub : Subscription)
      (hl : w.listenersAt place = some l) (hseat : sub.seat? = some (place, l.next))
      (hkey : sub.key = key) :
      Effect w handles (.listen place key) (w.enlisted place key) (handles ++ [some sub]) []
  | receives (n : Nat) (sub : Subscription) (hn : handles[n]? = some (some sub)) :
      Effect w handles (.receive n) (w.taken sub) handles []
  | releases (n : Nat) (sub : Subscription) (hn : handles[n]? = some (some sub)) :
      Effect w handles (.release n) (w.without sub) (handles.set n none) []

/-- Whether an act is about listeners alone: nothing is started, moved on or marked. -/
def Act.IsOnListeners : Act → Prop
  | .publish _ _ | .close | .listen _ _ | .receive _ | .release _ => True
  | _ => False

theorem Effect.listenersOnly {w W : World} {handles handles' : List (Option Subscription)} {a : Act}
    {rs : List Runnable} (he : Effect w handles a W handles' rs) (ha : a.IsOnListeners) :
    w.ListenersOnly W := by
  cases he with
  | aside a h => exact .refl w
  | publishes key payload => exact World.listenersOnly_onListeners _ _ w
  | closes => exact World.listenersOnly_onListeners _ _ w
  | listens place key l sub hl hseat hkey => exact World.listenersOnly_onListeners _ _ w
  | receives n sub hn => exact World.listenersOnly_taken w sub
  | releases n sub hn => exact World.listenersOnly_without w sub
  | _ => exact ha.elim

namespace World

theorem leads_start (name : String) (job : Job) (cancellation : Cancellation) (w : World) :
    w.Leads (w.started name job cancellation) (w.start name job cancellation) :=
  (leads_self (w := w) (W := w.started name job cancellation) rfl rfl rfl).wake (.task w.nextId)

theorem leads_ring (time : Nat) (w : World) : w.Leads (w.rung time) (w.ring time) :=
  (leads_self (w := w) (W := w.rung time) rfl rfl rfl).wakeAll _

/-! ### Tasks by their numbers -/

theorem find?_of_nodup {α : Type} (f : α → Nat) {l : List α} (h : (l.map f).Nodup) {a : α}
    (ha : a ∈ l) : l.find? (fun x => f x = f a) = some a := by
  induction l with
  | nil => simp at ha
  | cons b rest ih =>
    rw [List.map_cons, List.nodup_cons] at h
    rcases List.mem_cons.mp ha with rfl | ha
    · exact List.find?_cons_of_pos (by simp)
    · have hne : f b ≠ f a := fun hb => h.1 (hb ▸ List.mem_map_of_mem ha)
      rw [List.find?_cons_of_neg (by simpa using hne)]
      exact ih h.2 ha

theorem mem_putTask {t u : Task} {w : World} :
    u ∈ (w.putTask t).tasks ↔
      (u ∈ w.tasks ∧ u.id ≠ t.id) ∨ (u = t ∧ ∃ v ∈ w.tasks, v.id = t.id) := by
  simp only [putTask, List.mem_map]
  constructor
  · rintro ⟨v, hv, rfl⟩
    by_cases hid : v.id = t.id
    · rw [if_pos hid]
      exact .inr ⟨rfl, v, hv, hid⟩
    · rw [if_neg hid]
      exact .inl ⟨hv, hid⟩
  · rintro (⟨hu, hid⟩ | ⟨rfl, v, hv, hid⟩)
    · exact ⟨u, hu, if_neg hid⟩
    · exact ⟨v, hv, if_pos hid⟩

theorem mem_gone {t u : Task} {o : Option Outcome} {w : World} :
    u ∈ (w.gone t o).tasks ↔ u ∈ w.tasks ∧ u.id ≠ t.id := by
  simp [gone]

end World

/-- What has a seat on the hub is a listener of the hub. -/
theorem Subscription.eq_hub {sub : Subscription} {id : ListenerId}
    (h : sub.seat? = some (none, id)) : sub = .hub sub.key id := by
  cases sub with
  | hub key i =>
    cases h
    rfl
  | puppet name key script => cases h
  | link i key l => cases h

namespace Scene

/-! ### Holders -/

variable {s : Scene}

theorem Seated.task?_eq (h : s.Seated) {t : Task} (ht : t ∈ s.world.tasks) :
    s.world.task? t.id = some t :=
  World.find?_of_nodup Task.id h.ids ht

theorem Seated.task_unique (h : s.Seated) {t u : Task} (ht : t ∈ s.world.tasks)
    (hu : u ∈ s.world.tasks) (hid : t.id = u.id) : t = u := by
  have htask := h.task?_eq ht
  rw [hid, h.task?_eq hu] at htask
  exact (Option.some.inj htask).symm

theorem Seated.has_unique (h : s.Seated) {o : Owner} {sub sub' : Subscription} (hs : s.Has o sub)
    (hs' : s.Has o sub') : sub = sub' := by
  cases o with
  | task id =>
    obtain ⟨t, ht, hid, hsub⟩ := hs
    obtain ⟨u, hu, hid', hsub'⟩ := hs'
    have htu := h.task_unique ht hu (hid.trans hid'.symm)
    subst htu
    exact Option.some.inj (hsub.symm.trans hsub')
  | handle n => exact Option.some.inj (Option.some.inj (hs.symm.trans hs'))

/-- A listener that is held is on no key but its own. -/
theorem Seated.key_eq (h : s.Seated) {o : Owner} {key k : Key} {id : ListenerId}
    (hs : s.Has o (.hub key id)) (hid : id ∈ s.world.hub.registry.on k) : k = key := by
  obtain ⟨o', ho'⟩ := h.owned k id hid
  have ho := h.unique o o' _ _ (none, id) hs ho' rfl rfl
  subst ho
  have hsub := h.has_unique hs ho'
  cases hsub
  rfl

/-! ### Every act has its effect -/

private theorem task?_stage (s : Scene) (a : Act) (id : WorkId) :
    (s.stage a).task? id = s.world.task? id := by
  unfold stage
  split
  · unfold World.takeUp
    split <;> rfl
  · rfl

theorem effect_move_task (h : s.Seated) (id : WorkId) {t : Task} (ht : s.world.task? id = some t) :
    ∃ W, Turned (s.world.takeUp (.task id)) t W ∧
      (s.world.takeUp (.task id)).Leads W (s.act (.move (.task id))).world := by
  have hmem : t ∈ s.world.tasks := List.mem_of_find?_eq_some ht
  have hhub : (s.world.takeUp (.task id)).hub = s.world.hub := by
    unfold World.takeUp
    split <;> rfl
  refine World.turned_moveTask ?_ ?_ ((task?_stage s (.move (.task id)) id).trans ht)
  · rw [hhub]
    exact h.hub
  · intro key l hsub k hl
    rw [hhub] at hl
    exact h.key_eq (o := .task t.id) ⟨t, hmem, rfl, hsub⟩ hl

/-- An act happens in the world as it is, but for what is taken out of the queue. -/
theorem stage_eq (s : Scene) (a : Act) : ∃ rs, s.stage a = { s.world with ready := rs } ∧
    ∀ r ∈ s.world.ready, (a = .move r ∧ s.world.isBusy r = false) ∨ r ∈ rs := by
  unfold stage
  split
  · rename_i r
    unfold World.takeUp
    split
    · exact ⟨s.world.ready, rfl, fun _ hr => .inr hr⟩
    · rename_i hbusy
      refine ⟨s.world.ready.erase r, rfl, fun r' hr' => ?_⟩
      by_cases hrr : r' = r
      · subst hrr
        exact .inl ⟨rfl, by simpa using hbusy⟩
      · exact .inr ((List.mem_erase_of_ne hrr).mpr hr')
  · exact ⟨s.world.ready, rfl, fun _ hr => .inr hr⟩

/-- Who reads or releases a listener is no matter to a task that has another. -/
private theorem Seated.other_seat (h : s.Seated) {n : Nat} {sub : Subscription}
    (hn : s.handles[n]? = some (some sub)) {u : Task} (hu : u ∈ s.world.tasks) {v : Vigil}
    (hst : u.stage = .watching v) {seat : Seat} (hseat : v.subscription.seat? = some seat) :
    sub.seat? ≠ some seat := by
  intro hsame
  have hhas : s.Has (.task u.id) v.subscription := ⟨u, hu, rfl, by rw [Task.subscription?, hst]⟩
  have ho := h.unique (.task u.id) (.handle n) _ _ seat hhas hn hseat hsame
  cases ho

private theorem leads_receive (h : s.Seated) {n : Nat} {sub : Subscription}
    (hn : s.handles[n]? = some (some sub)) :
    s.world.Leads (s.world.taken sub) (s.world.takeFrom sub) := by
  rw [World.takeFrom_eq]
  refine ⟨.refl _, fun r hr => ?_, fun u hu _ =>
    ⟨fun v hst _ => .inl ?_, fun route i call listener _ ho => .inl ?_⟩⟩
  · rw [(World.listenersOnly_taken s.world sub).ready]
    exact hr
  · exact World.sight_taken fun seat hseat => h.other_seat hn hu hst hseat
  · rwa [World.callOutcome?_taken] at ho

private theorem leads_release (h : s.Seated) {n : Nat} {sub : Subscription}
    (hn : s.handles[n]? = some (some sub)) :
    s.world.Leads (s.world.without sub) (s.world.release sub) := by
  refine ⟨World.alike_release sub s.world, World.ready_release sub s.world, fun u hu _ => ?_⟩
  refine World.heeds_release h.hub ?_ hu fun v seat hst hseat _ => h.other_seat hn hu hst hseat
  rintro key id rfl k hid
  exact h.key_eq (o := .handle n) hn hid

private theorem act_move_task_none {id : WorkId} (hnone : s.world.task? id = none) :
    (s.act (.move (.task id))).world = s.stage (.move (.task id)) := by
  have hstage := task?_stage s (.move (.task id)) id
  rw [hnone] at hstage
  change (s.stage (.move (.task id))).moveTask id = _
  rw [World.moveTask, hstage]

private theorem act_move_post_idle {id : WorkId}
    (h : ∀ c, (s.stage (.move (.post id))).courier? id = some c → c.post.ending?.isSome) :
    (s.act (.move (.post id))).world = s.stage (.move (.post id)) := by
  change (s.stage (.move (.post id))).moveCourier id = _
  rw [World.moveCourier]
  split
  · rfl
  · rename_i c hc
    rw [if_pos (h c hc)]

private theorem effect_listen (place : Option Nat) (key : Key) (h : s.Seated) : ∃ W rs,
    Effect (s.stage (.listen place key)) s.handles (.listen place key) W
        (s.act (.listen place key)).handles rs ∧
      (s.stage (.listen place key)).Leads W (s.act (.listen place key)).world ∧
      ∀ r ∈ rs, r ∈ (s.act (.listen place key)).world.ready := by
  cases place with
  | none =>
    refine ⟨_, _, .listens none key s.world.hub _ rfl rfl rfl, ?_, by simp⟩
    exact World.leads_subscribeHub h.hub key _
  | some i =>
    cases hs : s.world.stations[i]? with
    | none =>
      have hsame : s.act (.listen (some i) key) = s := by
        simp only [act, hs]
      rw [hsame]
      exact ⟨_, _, .aside _ hs, .refl _, by simp⟩
    | some station =>
      have hact : s.act (.listen (some i) key) =
          ⟨s.world.onLink i fun l => (l.subscribe key, []),
            s.handles ++ [some (.link i key station.link.listeners.next)]⟩ := by
        simp only [act, hs]
      rw [hact]
      refine ⟨_, _, .listens (some i) key station.link.listeners _ ?_ rfl rfl, ?_, by simp⟩
      · change (s.world.stations[i]?).map _ = _
        rw [hs]
        rfl
      · exact World.leads_subscribeLink i key s.world

/-- Every act has one of the effects. -/
theorem act_effect (h : s.Seated) (a : Act) : ∃ W rs,
    Effect (s.stage a) s.handles a W (s.act a).handles rs ∧
      (s.stage a).Leads W (s.act a).world ∧ ∀ r ∈ rs, r ∈ (s.act a).world.ready := by
  cases a with
  | start name job cancellation =>
    refine ⟨_, _, .starts name job cancellation,
      World.leads_start name job cancellation s.world, ?_⟩
    intro r hr
    rw [List.mem_singleton.mp hr]
    exact World.mem_ready_wake _ _
  | move r =>
    cases r with
    | agent i => exact ⟨_, _, .aside _ trivial, .of_aside (World.aside_runAgent i _), by simp⟩
    | task id =>
      cases ht : s.world.task? id with
      | none =>
        have hnone : (s.stage (.move (.task id))).task? id = none := (task?_stage s _ id).trans ht
        exact ⟨_, _, .aside _ hnone, act_move_task_none ht ▸ .refl _, by simp⟩
      | some t =>
        obtain ⟨W, hW, hleads⟩ := effect_move_task h id ht
        exact ⟨W, [], .turns id t W ((task?_stage s _ id).trans ht) hW, hleads, by simp⟩
    | post id =>
      by_cases hidle : ∀ c, (s.stage (.move (.post id))).courier? id = some c →
        c.post.ending?.isSome
      · exact ⟨_, _, .aside _ hidle, act_move_post_idle hidle ▸ .refl _, by simp⟩
      · push Not at hidle
        obtain ⟨c, hc, hopen⟩ := hidle
        have hnone : c.post.ending? = none := by simpa using hopen
        obtain ⟨hleads, hwoken⟩ := World.leads_moveCourier hc hnone
        refine ⟨_, _, .carries id c hc hnone, hleads, fun r hr => ?_⟩
        split at hr
        · rename_i hend
          rw [List.mem_singleton.mp hr]
          exact hwoken hend
        · simp at hr
  | cancel id =>
    cases ht : s.world.task? id with
    | none =>
      have hsame : s.act (.cancel id) = s := by simp only [act, World.cancel, ht]
      rw [hsame]
      exact ⟨_, _, .aside _ ht, .refl _, by simp⟩
    | some t =>
      have hact : s.act (.cancel id) = ⟨(s.world.putTask { t with cancellation := .done }).wake
          (.task id), s.handles⟩ := by
        simp only [act, World.cancel, ht]
      rw [hact]
      refine ⟨_, _, .cancels id t ht, ((World.Leads.refl _).putTask _).wake _, fun r hr => ?_⟩
      rw [List.mem_singleton.mp hr]
      exact World.mem_ready_wake _ _
  | drop id =>
    cases ht : s.world.task? id with
    | none =>
      have hsame : s.act (.drop id) = s := by simp only [act, World.drop, ht]
      rw [hsame]
      exact ⟨_, _, .aside _ ht, .refl _, by simp⟩
    | some t =>
      have hact : s.act (.drop id) = ⟨(s.world.putTask { t with isDropped := true }).wake
          (.task id), s.handles⟩ := by
        simp only [act, World.drop, ht]
      rw [hact]
      refine ⟨_, _, .drops id t ht, ((World.Leads.refl _).putTask _).wake _, fun r hr => ?_⟩
      rw [List.mem_singleton.mp hr]
      exact World.mem_ready_wake _ _
  | ring time =>
    refine ⟨_, _, .rings time, World.leads_ring time s.world, fun r hr => ?_⟩
    exact World.mem_ready_wakeAll hr _
  | publish key payload =>
    exact ⟨_, _, .publishes key payload, World.leads_publishOnHub key payload s.world, by simp⟩
  | close => exact ⟨_, _, .closes, World.leads_closeHub s.world, by simp⟩
  | listen place key => exact effect_listen place key h
  | receive n =>
    by_cases hn : ∀ sub, s.handles[n]? ≠ some (some sub)
    · have hsame : s.act (.receive n) = s := by
        simp only [act]
      rw [hsame]
      exact ⟨_, _, .aside _ hn, .refl _, by simp⟩
    · push Not at hn
      obtain ⟨sub, hn⟩ := hn
      have hact : s.act (.receive n) = ⟨s.world.takeFrom sub, s.handles⟩ := by simp only [act, hn]
      rw [hact]
      exact ⟨_, _, .receives n sub hn, leads_receive h hn, by simp⟩
  | release n =>
    by_cases hn : ∀ sub, s.handles[n]? ≠ some (some sub)
    · have hsame : s.act (.release n) = s := by
        simp only [act]
      rw [hsame]
      exact ⟨_, _, .aside _ hn, .refl _, by simp⟩
    · push Not at hn
      obtain ⟨sub, hn⟩ := hn
      have hact : s.act (.release n) = ⟨s.world.release sub, s.handles.set n none⟩ := by
        simp only [act, hn]
      rw [hact]
      exact ⟨_, _, .releases n sub hn, leads_release h hn, by simp⟩
  | useLink i u =>
    have haside : s.world.Aside (s.world.onLink i fun l => (u.on l, [])) :=
      World.aside_onLink u.extends_on _
    exact ⟨_, _, .aside _ trivial, .of_aside haside, by simp⟩
  | bring sendings =>
    exact ⟨_, _, .aside _ trivial, .of_aside (World.aside_bring sendings s.world), by simp⟩
  | cut i => exact ⟨_, _, .aside _ trivial, .of_aside (World.aside_cut i s.world), by simp⟩

end Scene

end Roaming.Simulation
