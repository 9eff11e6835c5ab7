import Roaming.Proofs.Fates

/-!
# Nobody sleeps over what it waits for

A task that watches stands in the queue as soon as there is something to see for it that ends its
exchange, and it has an alarm until its time is over. One that waits for its listener stands there
as soon as its call has come to an outcome, and one that has not begun from the start, unless there
is no link for it (`World.Alert`). Every act keeps this up.
-/

set_option autoImplicit false
set_option relaxedAutoImplicit false

namespace Roaming.Simulation

open Roaming.Text (Bytes)

/-- What a task lacks does not come as long as no link does. -/
theorem Task.IsIdle.congr {w w' : World} {t : Task} (h : t.IsIdle w)
    (hplaces : w'.stations.length = w.stations.length) : t.IsIdle w' := by
  unfold Task.IsIdle at h ⊢
  split at h
  · obtain ⟨route, i, hroute, hmedium, hnone⟩ := h
    refine ⟨route, i, hroute, hmedium, ?_⟩
    rw [List.getElem?_eq_none_iff] at hnone ⊢
    rwa [hplaces]
  all_goals simp_all

namespace World

/-- What ends the exchange of a task that watches, if it looks now. -/
def verdict (w : World) (t : Task) (v : Vigil) : Option (Except Failure Bytes) :=
  v.watch.verdict (w.view t v)

/-- Whether everybody is woken in time. -/
structure Alert (w : World) : Prop where
  decided : ∀ t ∈ w.tasks, ∀ v, t.stage = .watching v → t.isBusy = false →
    w.verdict t v ≠ none → .task t.id ∈ w.ready
  timed : ∀ t ∈ w.tasks, ∀ v, t.stage = .watching v → w.now < v.due →
    ⟨v.due, .task t.id⟩ ∈ w.alarms
  dropped : ∀ t ∈ w.tasks, t.isDropped = true → .task t.id ∈ w.ready
  called : ∀ t ∈ w.tasks, ∀ route i call listener, t.stage = .subscribing route i call listener →
    t.isBusy = false → w.callOutcome? i call ≠ none → .task t.id ∈ w.ready
  begun : ∀ t ∈ w.tasks, t.stage = .fresh → .task t.id ∈ w.ready ∨ t.IsIdle w

variable {w w' W : World} {hs hs' : List (Option Subscription)} {a : Act} {rs : List Runnable}

/-- What is to see besides the inbox. -/
theorem view_eq {t : Task} {v : Vigil} (hsight : w'.sight v.subscription = w.sight v.subscription)
    (hsent : w'.ending? v.courier = w.ending? v.courier)
    (hexpired : v.due ≤ w'.now ↔ v.due ≤ w.now) : w'.view t v = w.view t v := by
  simp only [view, hsight, hsent, decide_eq_decide.mpr hexpired]

theorem verdict_eq_ok {t : Task} {v : Vigil} {key : Key} {l : ListenerId} {payload : Bytes}
    (hv : v.subscription = .hub key l) :
    w.verdict t v = some (.ok payload) ↔ w.hub.sight l = .message payload := by
  have hinbox : (w.view t v).inbox = w.hub.sight l := by
    change w.sight v.subscription = _
    rw [hv]
    rfl
  rw [verdict, Watch.verdict_eq_ok, hinbox]

/-- A watch that goes on has come to no verdict, and comes to none as long as it sees the same. -/
theorem verdict_looked (htidy : w.Tidy) {t : Task} (ht : t ∈ w.tasks) {v : Vigil}
    (hst : t.stage = .watching v) (hpoll : (v.watch.poll (w.view t v)).2.1 = none) :
    w.verdict t v = none ∧ (v.watch.poll (w.view t v)).1 =
      { v.watch with sendPending := v.watch.sendPending && (w.ending? v.courier).isNone } := by
  obtain ⟨-, e, route, -, -, c, -, -, -, htracks⟩ := htidy.watching ht hst
  obtain ⟨houtcome, hwatch⟩ := Watch.poll_spec (v := w.view t v) htracks
  have hnone : w.verdict t v = none := houtcome.symm.trans hpoll
  exact ⟨hnone, hwatch hnone⟩

/-- For a task that the act is not about, the end of its POST and of its time come with a
wake-up. -/
private theorem sent_or_woken (htidy : w.Tidy) (hseated : (⟨w, hs⟩ : Scene).Seated)
    (he : Effect w hs a W hs' rs) {t : Task} (ht : t ∈ w.tasks) {v : Vigil}
    (hst : t.stage = .watching v) :
    W.ending? v.courier = w.ending? v.courier ∨ .task t.id ∈ rs := by
  have htidy' : W.Tidy := htidy.effect hseated he
  obtain ⟨-, e, route, -, -, c, hc, hid, hserves, -⟩ := htidy.watching ht hst
  rcases he.courier_fate htidy hc with ⟨hc', -⟩ | ⟨-, hopen, hc', hwoken⟩
  · left
    rw [← hid, htidy.ending?_eq hc, htidy'.ending?_eq hc']
  · cases hend : (w.advanced c.post).ending? with
    | none =>
      left
      have hnew := htidy'.ending?_eq hc'
      rw [← hid, htidy.ending?_eq hc, hopen]
      exact hnew.trans hend
    | some ending =>
      right
      rw [← hserves.waiter]
      exact hwoken (by rw [hend]; rfl)

private theorem expired_or_woken (he : Effect w hs a W hs' rs) {r : Runnable} {due : Nat}
    (hset : w.now < due → ⟨due, r⟩ ∈ w.alarms) : (due ≤ W.now ↔ due ≤ w.now) ∨ r ∈ rs := by
  rcases he.onward with ⟨honward, -⟩ | ⟨time, -, rfl, rfl⟩
  · exact .inl (by rw [honward.now])
  · by_cases hlate : w.now < due ∧ due ≤ time
    · right
      have halarm : (⟨due, r⟩ : Alarm) ∈ w.alarms.filter fun a => a.due ≤ time :=
        List.mem_filter.mpr ⟨hset hlate.1, by simpa using hlate.2⟩
      exact List.mem_map.mpr ⟨_, halarm, rfl⟩
    · left
      change due ≤ max w.now time ↔ due ≤ w.now
      omega

/-- An alarm goes off when it is due, and not before. -/
theorem alarm_kept (he : Effect w hs a W hs' rs) {x : Alarm} (hx : x ∈ w.alarms)
    (hlate : W.now < x.due) : x ∈ W.alarms := by
  have hlisteners := he.listenersOnly
  cases he with
  | aside a ha => exact hx
  | starts name job cancellation => exact hx
  | turns id u W hu hW =>
    have hleft : ∀ (w : World) (o : Option Outcome), x ∈ w.alarms → x ∈ (w.left u o).alarms := by
      intro w o hx
      obtain ⟨w₀, hw, heq⟩ := left_eq u o w
      rw [heq]
      exact hw.alarms ▸ hx
    cases hW with
    | cleared hd => exact hleft w none hx
    | still hd hidle => exact hx
    | leaves hd pubs o hl => exact hleft (w.offered pubs) o hx
    | moves hd stage isBusy gain hm =>
      cases gain with
      | nothing => exact hx
      | listener place key =>
        change x ∈ (w.onListeners place _).alarms
        rw [alarms_onListeners]
        exact hx
      | courier peer body alarm =>
        cases alarm with
        | none => exact hx
        | some due => exact mem_setAlarm.mpr (.inl hx)
  | carries id d hd hopen => exact hx
  | cancels id u hu => exact hx
  | drops id u hu => exact hx
  | rings time =>
    refine List.mem_filter.mpr ⟨hx, ?_⟩
    have hlate' : max w.now time < x.due := hlate
    have hnot : ¬ x.due ≤ time := by omega
    simpa using hnot
  | _ =>
    rw [(hlisteners trivial).alarms]
    exact hx

/-- Whoever is cancelled or dropped is woken. -/
private theorem marked_woken (hseated : (⟨w, hs⟩ : Scene).Seated) (he : Effect w hs a W hs' rs)
    {t : Task} (ht : t ∈ w.tasks) (ha : a = .cancel t.id ∨ a = .drop t.id) : .task t.id ∈ rs := by
  have htask := hseated.task?_eq ht
  rcases ha with rfl | rfl
  · cases he with
    | aside a ha =>
      rw [show w.task? t.id = none from ha] at htask
      cases htask
    | cancels id u hu => exact List.mem_singleton_self _
  · cases he with
    | aside a ha =>
      rw [show w.task? t.id = none from ha] at htask
      cases htask
    | drops id u hu => exact List.mem_singleton_self _

/-- Whoever is started is woken. -/
private theorem started_woken {name : String} {job : Job} {cancellation : Cancellation}
    (he : Effect w hs (.start name job cancellation) W hs' rs) : .task w.nextId ∈ rs := by
  cases he with
  | aside a ha => exact ha.elim
  | starts => exact List.mem_singleton_self _

end World

namespace Scene

variable {s : Scene}

/-- Who stands in the queue still does after an act, unless it is the act that begins its turn. -/
theorem ready_kept {a : Act} {W : World} (hleads : (s.stage a).Leads W (s.act a).world)
    {r : Runnable} (hr : r ∈ s.world.ready) (hne : a = .move r → s.world.isBusy r = true) :
    r ∈ (s.act a).world.ready := by
  obtain ⟨rs, hrs, hmem⟩ := stage_eq s a
  rcases hmem r hr with ⟨ha, hidle⟩ | hr'
  · rw [hne ha] at hidle
    cases hidle
  · refine hleads.ready r ?_
    rw [hrs]
    exact hr'

theorem view_stage (s : Scene) (a : Act) (t : Task) (v : Vigil) :
    (s.stage a).view t v = s.world.view t v := by
  obtain ⟨rs, hrs, -⟩ := stage_eq s a
  rw [hrs]
  simp only [World.view, World.ending?, World.courier?]
  cases v.subscription <;> rfl

/-- Whoever the act is not about sees after it what it saw before, or was woken. -/
private theorem verdict_kept (hseated : s.Seated) (htidy : s.world.Tidy) (h : s.world.Alert)
    {a : Act} {W : World} {rs : List Runnable}
    (he : Effect (s.stage a) s.handles a W (s.act a).handles rs)
    (hleads : (s.stage a).Leads W (s.act a).world)
    (hwoken : ∀ r ∈ rs, r ∈ (s.act a).world.ready) {t : Task} (ht : t ∈ s.world.tasks)
    (hstays : t.id ∈ (s.act a).world.tasks.map (·.id)) {v : Vigil} (hst : t.stage = .watching v) :
    (s.act a).world.view t v = s.world.view t v ∨ .task t.id ∈ (s.act a).world.ready := by
  obtain ⟨rs₀, hrs, -⟩ := stage_eq s a
  have hseatedw := hseated.stage a
  have htidyw : (s.stage a).Tidy := by
    rw [hrs]
    exact World.Tidy.congr (w := s.world) htidy (fun _ hu => hu) rfl (Nat.le_refl _) (Nat.le_refl _)
  have htw : t ∈ (s.stage a).tasks := by
    rw [hrs]
    exact ht
  have hset : (s.stage a).now < v.due → ⟨v.due, .task t.id⟩ ∈ (s.stage a).alarms := by
    rw [hrs]
    exact h.timed t ht v hst
  rcases World.sent_or_woken htidyw hseatedw he htw hst with hsent | hready
  · rcases World.expired_or_woken he hset with hexpired | hready
    · rcases (hleads.heeds t htw hstays).sees v hst fun seat hseat => hseatedw.own htw hst hseat
        with hsight | hready
      · left
        have hsent' : (s.act a).world.ending? v.courier = (s.stage a).ending? v.courier := by
          rw [← hsent]
          simp only [World.ending?, World.courier?, hleads.alike.couriers]
        have hexpired' : v.due ≤ (s.act a).world.now ↔ v.due ≤ (s.stage a).now := by
          rw [hleads.alike.now]
          exact hexpired
        exact (World.view_eq hsight hsent' hexpired').trans (view_stage s a t v)
      · exact .inr hready
    · exact .inr (hwoken _ hready)
  · exact .inr (hwoken _ hready)

private theorem decided_act (hseated : s.Seated) (htidy : s.world.Tidy) (h : s.world.Alert)
    (a : Act) {t' : Task} (ht' : t' ∈ (s.act a).world.tasks) {v' : Vigil}
    (hst' : t'.stage = .watching v') (hbusy : t'.isBusy = false)
    (hverdict : (s.act a).world.verdict t' v' ≠ none) : .task t'.id ∈ (s.act a).world.ready := by
  obtain ⟨W, rs, he, hleads, hwoken⟩ := act_effect hseated a
  obtain ⟨rs₀, hrs, -⟩ := stage_eq s a
  have hseatedw := hseated.stage a
  have htW : t' ∈ W.tasks := hleads.alike.tasks ▸ ht'
  rcases he.origin hseatedw htW with ⟨t, ht, hfate⟩ | ⟨name, job, cancellation, -, rfl⟩
  · have hts : t ∈ s.world.tasks := by
      rw [hrs] at ht
      exact ht
    have hstays : t.id ∈ (s.act a).world.tasks.map (·.id) := by
      rw [← hfate.id_eq]
      exact List.mem_map_of_mem ht'
    cases hfate with
    | kept hne =>
      rcases verdict_kept hseated htidy h he hleads hwoken hts hstays hst' with hview | hready
      · rw [World.verdict, hview] at hverdict
        exact ready_kept hleads (h.decided t' hts v' hst' hbusy hverdict)
          fun ha => absurd (.inr (.inr ha)) hne
      · exact hready
    | cancelled ha => exact hwoken _ (World.marked_woken (t := t) hseatedw he ht (.inl ha))
    | dropped ha => exact hwoken _ (World.marked_woken (t := t) hseatedw he ht (.inr ha))
    | still ha hd hidle hW => simp [Task.IsIdle, hst'] at hidle
    | moved ha hd stage isBusy gain hm hW =>
      -- A task that rests while it watches has just looked in vain.
      cases hm with
      | waits hw =>
        rw [Task.IsWaiting, show t.stage = .watching v' from hst'] at hw
        exact hw.elim
      | looks v hst hpoll =>
        rcases verdict_kept hseated htidy h he hleads hwoken hts hstays hst with hview | hready
        · refine absurd ?_ hverdict
          rw [view_stage] at hpoll hst'
          obtain ⟨hnone, hwatch⟩ := World.verdict_looked htidy hts hst hpoll
          rw [hwatch] at hst'
          cases hst'
          exact (congrArg v.watch.verdict hview).trans hnone
        · exact hready
      | launches e route sub v hst he hv => cases hbusy
      | _ => cases hst'
  · cases hst'

private theorem timed_act (hseated : s.Seated) (htidy : s.world.Tidy) (h : s.world.Alert) (a : Act)
    {t' : Task} (ht' : t' ∈ (s.act a).world.tasks) {v' : Vigil} (hst' : t'.stage = .watching v')
    (hlate : (s.act a).world.now < v'.due) :
    ⟨v'.due, .task t'.id⟩ ∈ (s.act a).world.alarms := by
  obtain ⟨W, rs, he, hleads, -⟩ := act_effect hseated a
  obtain ⟨rs₀, hrs, -⟩ := stage_eq s a
  have hseatedw := hseated.stage a
  have htW : t' ∈ W.tasks := hleads.alike.tasks ▸ ht'
  rw [hleads.alike.now] at hlate
  refine hleads.alike.alarms _ ?_
  have hnow : s.world.now ≤ W.now := by
    rcases he.onward with ⟨honward, -⟩ | ⟨time, -, rfl, -⟩
    · exact Nat.le_of_eq (by rw [honward.now, hrs])
    · rw [hrs]
      exact Nat.le_max_left _ _
  -- An alarm that was set before is still there.
  have hold : ∀ t ∈ (s.stage a).tasks, ∀ v, t.stage = .watching v → W.now < v.due →
      ⟨v.due, .task t.id⟩ ∈ W.alarms := by
    intro t ht v hst hlater
    refine World.alarm_kept he ?_ hlater
    rw [hrs] at ht ⊢
    exact h.timed t ht v hst (Nat.lt_of_le_of_lt hnow hlater)
  rcases he.origin hseatedw htW with ⟨t, ht, hfate⟩ | ⟨name, job, cancellation, -, rfl⟩
  · cases hfate with
    | kept hne => exact hold t' ht v' hst' hlate
    | cancelled ha => exact hold t ht v' hst' hlate
    | dropped ha => exact hold t ht v' hst' hlate
    | still ha hd hidle hW => exact hold t' ht v' hst' hlate
    | moved ha hd stage isBusy gain hm hW =>
      cases hm with
      | waits hw => exact hold t ht v' hst' hlate
      | launches e route sub v hst he' hv =>
        cases hst'
        rw [hW]
        exact World.mem_setAlarm.mpr (.inr rfl)
      | looks v hst hpoll =>
        have hts : t ∈ s.world.tasks := by
          rw [hrs] at ht
          exact ht
        rw [view_stage] at hpoll hst'
        obtain ⟨-, hwatch⟩ := World.verdict_looked htidy hts hst hpoll
        rw [hwatch] at hst'
        cases hst'
        exact hold t ht v hst hlate
      | _ => cases hst'
  · cases hst'

private theorem dropped_act (hseated : s.Seated) (h : s.world.Alert) (a : Act) {t' : Task}
    (ht' : t' ∈ (s.act a).world.tasks) (hdropped : t'.isDropped = true) :
    .task t'.id ∈ (s.act a).world.ready := by
  obtain ⟨W, rs, he, hleads, hwoken⟩ := act_effect hseated a
  obtain ⟨rs₀, hrs, -⟩ := stage_eq s a
  have hseatedw := hseated.stage a
  have htW : t' ∈ W.tasks := hleads.alike.tasks ▸ ht'
  rcases he.origin hseatedw htW with ⟨t, ht, hfate⟩ | ⟨name, job, cancellation, -, rfl⟩
  · have hts : t ∈ s.world.tasks := by
      rw [hrs] at ht
      exact ht
    -- A dropped task that is moved and is still there is in the middle of its turn.
    have hbusy : (t.isDropped && !t.isBusy) = false → t.isDropped = true →
        s.world.isBusy (.task t.id) = true := by
      intro hd hdrop
      rw [hdrop, Bool.true_and] at hd
      have hb : t.isBusy = true := by simpa using hd
      rw [World.isBusy, hseated.task?_eq hts]
      exact hb
    cases hfate with
    | kept hne =>
      exact ready_kept hleads (h.dropped t' hts hdropped) fun ha => absurd (.inr (.inr ha)) hne
    | cancelled ha => exact hwoken _ (World.marked_woken (t := t) hseatedw he ht (.inl ha))
    | dropped ha => exact hwoken _ (World.marked_woken (t := t) hseatedw he ht (.inr ha))
    | still ha hd hidle hW =>
      exact ready_kept hleads (h.dropped t' hts hdropped) fun _ => hbusy hd hdropped
    | moved ha hd stage isBusy gain hm hW =>
      exact ready_kept hleads (h.dropped t hts hdropped) fun _ => hbusy hd hdropped
  · cases hdropped

private theorem called_act (hseated : s.Seated) (htidy : s.world.Tidy) (h : s.world.Alert) (a : Act)
    {t' : Task} (ht' : t' ∈ (s.act a).world.tasks) {route : AnswerRoute Medium} {i : Nat}
    {call : Redis.CallId} {listener : ListenerId}
    (hst' : t'.stage = .subscribing route i call listener) (hbusy : t'.isBusy = false)
    (ho : (s.act a).world.callOutcome? i call ≠ none) : .task t'.id ∈ (s.act a).world.ready := by
  obtain ⟨W, rs, he, hleads, hwoken⟩ := act_effect hseated a
  obtain ⟨rs₀, hrs, -⟩ := stage_eq s a
  have hseatedw := hseated.stage a
  have htW : t' ∈ W.tasks := hleads.alike.tasks ▸ ht'
  have hsame : (s.stage a).callOutcome? i call = s.world.callOutcome? i call := by
    rw [hrs]
    rfl
  rcases he.origin hseatedw htW with ⟨t, ht, hfate⟩ | ⟨name, job, cancellation, -, rfl⟩
  · have hts : t ∈ s.world.tasks := by
      rw [hrs] at ht
      exact ht
    have hstays : t.id ∈ (s.act a).world.tasks.map (·.id) := by
      rw [← hfate.id_eq]
      exact List.mem_map_of_mem ht'
    have hears : t.stage = .subscribing route i call listener →
        s.world.callOutcome? i call ≠ none ∨ .task t.id ∈ (s.act a).world.ready :=
      fun hst => hsame ▸ (hleads.heeds t ht hstays).hears route i call listener hst ho
    cases hfate with
    | kept hne =>
      rcases hears hst' with hbefore | hready
      · exact ready_kept hleads (h.called t' hts route i call listener hst' hbusy hbefore)
          fun ha => absurd (.inr (.inr ha)) hne
      · exact hready
    | cancelled ha => exact hwoken _ (World.marked_woken (t := t) hseatedw he ht (.inl ha))
    | dropped ha => exact hwoken _ (World.marked_woken (t := t) hseatedw he ht (.inr ha))
    | still ha hd hidle hW =>
      have hplace := htidy.inPlace t' hts
      rw [Task.InPlace, hst'] at hplace
      obtain ⟨-, e, he', -⟩ := hplace
      simp [Task.IsIdle, hst', he'] at hidle
    | moved ha hd stage isBusy gain hm hW =>
      -- A task that rests while it waits for its listener has found no outcome.
      cases hm with
      | waits hw =>
        rcases hears hst' with hbefore | hready
        · have hst : t.stage = .subscribing route i call listener := hst'
          rw [Task.IsWaiting, hst] at hw
          exact absurd (hsame.symm.trans hw) hbefore
        · exact hready
      | calls e route' j st hst he' hroute hmedium hs => cases hbusy
      | _ => cases hst'
  · cases hst'

private theorem begun_act (hseated : s.Seated) (h : s.world.Alert) (a : Act) {t' : Task}
    (ht' : t' ∈ (s.act a).world.tasks) (hst' : t'.stage = .fresh) :
    .task t'.id ∈ (s.act a).world.ready ∨ t'.IsIdle (s.act a).world := by
  obtain ⟨W, rs, he, hleads, hwoken⟩ := act_effect hseated a
  obtain ⟨rs₀, hrs, -⟩ := stage_eq s a
  have hseatedw := hseated.stage a
  have htW : t' ∈ W.tasks := hleads.alike.tasks ▸ ht'
  have hplaces : (s.act a).world.stations.length = (s.stage a).stations.length :=
    hleads.alike.places.trans he.places
  rcases he.origin hseatedw htW with ⟨t, ht, hfate⟩ | ⟨name, job, cancellation, rfl, rfl⟩
  · have hts : t ∈ s.world.tasks := by
      rw [hrs] at ht
      exact ht
    cases hfate with
    | kept hne =>
      rcases h.begun t' hts hst' with hready | hidle
      · exact .inl (ready_kept hleads hready fun ha => absurd (.inr (.inr ha)) hne)
      · exact .inr (hidle.congr (by rw [hplaces, hrs]))
    | cancelled ha => exact .inl (hwoken _ (World.marked_woken (t := t) hseatedw he ht (.inl ha)))
    | dropped ha => exact .inl (hwoken _ (World.marked_woken (t := t) hseatedw he ht (.inr ha)))
    | still ha hd hidle hW => exact .inr (hidle.congr hplaces)
    | moved ha hd stage isBusy gain hm hW =>
      cases hm with
      | waits hw =>
        rw [Task.IsWaiting, show t.stage = .fresh from hst'] at hw
        exact hw.elim
      | _ => cases hst'
  · exact .inl (hwoken _ (World.started_woken he))

/-- What every act keeps up. -/
structure Sound (s : Scene) : Prop where
  seated : s.Seated
  tidy : s.world.Tidy
  alert : s.world.Alert
  settled : s.world.Settled

private theorem settled_act (hseated : s.Seated) (h : s.world.Settled) (a : Act) :
    (s.act a).world.Settled := by
  obtain ⟨W, rs, he, hleads, -⟩ := act_effect hseated a
  obtain ⟨rs₀, hrs, -⟩ := stage_eq s a
  have hw : (s.stage a).Settled := by
    rw [hrs]
    exact h
  have hW : W.Settled := hw.effect (hseated.stage a) he
  unfold World.Settled at hW ⊢
  rw [hleads.alike.ended, hleads.alike.tasks, hleads.alike.nextId]
  exact hW

theorem Sound.act (h : s.Sound) (a : Act) : (s.act a).Sound where
  seated := h.seated.act a
  tidy := act_tidy h.seated h.tidy a
  alert :=
    { decided := fun _ ht' _ hst' hbusy hverdict =>
        decided_act h.seated h.tidy h.alert a ht' hst' hbusy hverdict
      timed := fun _ ht' _ hst' hlate => timed_act h.seated h.tidy h.alert a ht' hst' hlate
      dropped := fun _ ht' hdropped => dropped_act h.seated h.alert a ht' hdropped
      called := fun _ ht' _ _ _ _ hst' hbusy ho =>
        called_act h.seated h.tidy h.alert a ht' hst' hbusy ho
      begun := fun _ ht' hst' => begun_act h.seated h.alert a ht' hst' }
  settled := settled_act h.seated h.settled a

theorem Sound.after (h : s.Sound) (acts : List Act) : (s.after acts).Sound :=
  after_induction h (fun _ a hs => hs.act a) acts

theorem IsOpening.sound (h : s.IsOpening) : s.Sound where
  seated := h.seated
  tidy := h.tidy
  alert := by
    constructor <;> intro t ht <;> rw [h.tasks] at ht <;> cases ht
  settled x hx := by
    rw [h.ended] at hx
    cases hx

/-- Every reachable scene is sound. -/
theorem IsOpening.sound_after (h : s.IsOpening) (acts : List Act) : (s.after acts).Sound :=
  h.sound.after acts

/-- In a quiet scene a task that has not been dropped has begun, unless there is no link for it; it
has been told of the outcome of its call, and does not stay between two pieces of its turn. -/
theorem Sound.stages_of_quiet (h : s.Sound) (hquiet : s.IsQuiet) {t : Task}
    (ht : t ∈ s.world.tasks) : (t.stage = .fresh → t.IsIdle s.world) ∧
    (∀ route i call listener, t.stage = .subscribing route i call listener →
      s.world.callOutcome? i call = none) ∧
    ∀ route sub, t.stage ≠ .armed route sub := by
  have hnone : ∀ {r : Runnable}, r ∉ s.world.ready := by
    rw [hquiet.1]
    exact fun hr => by cases hr
  refine ⟨fun hst => ?_, fun route i call listener hst => ?_, fun route sub hst => ?_⟩
  · exact (h.alert.begun t ht hst).resolve_left hnone
  · by_contra ho
    exact hnone (h.alert.called t ht route i call listener hst (hquiet.2 t ht) ho)
  · have hplace := h.tidy.inPlace t ht
    rw [Task.InPlace, hst, hquiet.2 t ht] at hplace
    exact Bool.false_ne_true hplace.2.1

/-- In a quiet scene nothing has happened that ends the exchange of a task that watches. -/
theorem Sound.verdict_of_quiet (h : s.Sound) (hquiet : s.IsQuiet) {t : Task}
    (ht : t ∈ s.world.tasks) {v : Vigil} (hst : t.stage = .watching v) :
    s.world.verdict t v = none := by
  by_contra hverdict
  have hready := h.alert.decided t ht v hst (hquiet.2 t ht) hverdict
  rw [hquiet.1] at hready
  cases hready

end Scene

end Roaming.Simulation
