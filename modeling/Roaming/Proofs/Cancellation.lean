import Roaming.Proofs.Outcomes
import Roaming.Proofs.Retention
import Roaming.Proofs.Turns

/-!
# Giving up

The caller of an exchange can give it up at any time, but this is looked at only when the listener
of the exchange is registered. While its call for a listener has no outcome, an exchange that was
cancelled goes on waiting, and keeps its listener. From then on it ends at its next look. In every
run this is the only thing that a cancelled exchange can be found waiting for
(`Scene.HonoursCancellation`).
-/

set_option autoImplicit false
set_option relaxedAutoImplicit false

namespace Roaming.Simulation

open Roaming.Text (Bytes)
open Roaming.Redis (CallId)

/-- How an exchange that was cancelled ends: its listener is refused, or it looks, and is cancelled
if nothing else that is to see ends it. -/
inductive EndsCancelled (w : World) (t : Task) (route : AnswerRoute Medium) : Outcome → Prop where
  | unarmed (name : String) (script : Puppet) (f : Failure) (hst : t.stage = .fresh)
      (hmedium : route.medium = .puppet name script) (hf : script.failure = some f) :
      EndsCancelled w t route (.failed f)
  | unconfirmed (i : Nat) (call : CallId) (listener : ListenerId) (f : Failure)
      (hst : t.stage = .subscribing route i call listener)
      (ho : w.callOutcome? i call = some (.error f)) : EndsCancelled w t route (.failed f)
  | looked (v : Vigil) (hst : t.stage = .watching v) :
      EndsCancelled w t route (t.job.outcome
        ((v.watch.verdict { w.view t v with cancelled := false }).getD (.error .cancelled)))

/-- A task that was cancelled stays so. -/
theorem Fate.cancelled_of_done {w W : World} {a : Act} {t t' : Task} (h : Fate w W a t (some t'))
    (hdone : t.cancellation = .done) : t'.cancellation = .done := by
  cases h with
  | kept hne => exact hdone
  | cancelled ha => rfl
  | dropped ha => exact hdone
  | still ha hd hidle hW => exact hdone
  | moved ha hd stage isBusy gain hm hW => exact hdone

/-- A task that exchanges something pushes no answer. -/
theorem Fate.not_pushing {w W : World} {a : Act} {t t' : Task} {e : Errand}
    (h : Fate w W a t (some t')) (he : t.job.errand? = some e) (hst : ∀ p, t.stage ≠ .pushing p) :
    ∀ p, t'.stage ≠ .pushing p := by
  cases h with
  | kept hne => exact hst
  | cancelled ha => exact hst
  | dropped ha => exact hst
  | still ha hd hidle hW => exact hst
  | moved ha hd stage isBusy gain hm hW =>
    cases hm with
    | waits hw => exact hst
    | pushes p busy hp hnone =>
      rw [Task.push?_of_errand he] at hp
      cases hp
    | _ => exact fun p hp => by cases hp

theorem World.verdict_of_cancelled {w : World} {t : Task} {v : Vigil}
    (hdone : t.cancellation = .done) : w.verdict t v =
      some ((v.watch.verdict { w.view t v with cancelled := false }).getD (.error .cancelled)) :=
  Watch.verdict_of_cancelled (by simp [World.view, hdone])

namespace Scene

variable {s : Scene}

/-- What the giving up of an exchange comes to in the course of acts. -/
structure HonoursCancellation (s : Scene) (t : Task) (route : AnswerRoute Medium)
    (acts : List Act) : Prop where
  /-- Where nothing goes on by itself, it is found waiting for a link to register its
  listener, or not at all. -/
  quiet : (s.after acts).IsQuiet → ∀ u ∈ (s.after acts).world.tasks, u.id = t.id →
    u.cancellation = .done → ∃ i call listener, route.medium = .link i ∧
      u.stage = .subscribing route i call listener ∧ (s.after acts).world.callOutcome? i call = none
  /-- There it stays, however often its turn comes. -/
  lingers : ∀ u ∈ (s.after acts).world.tasks, u.id = t.id → ∀ i call listener,
    u.stage = .subscribing route i call listener → (s.after acts).world.callOutcome? i call = none →
    (u.isDropped && !u.isBusy) = false →
    ∃ x ∈ ((s.after acts).act (.move (.task t.id))).world.tasks, x.id = t.id ∧
      x.stage = u.stage ∧ x.cancellation = u.cancellation
  /-- Once it has its listener, its next turn is its last. -/
  ends : ∀ u ∈ (s.after acts).world.tasks, u.id = t.id → u.cancellation = .done →
    ∀ v, u.stage = .watching v → (u.isDropped && !u.isBusy) = false →
    (∀ x ∈ ((s.after acts).act (.move (.task t.id))).world.tasks, x.id ≠ t.id) ∧
      ∃ o, ((s.after acts).act (.move (.task t.id))).world.outcomes t.id = [o] ∧
        EndsCancelled (s.after acts).world u route o
  /-- It ends in no other way. -/
  outcome : ∀ earlier later, acts = earlier ++ later → ∀ u ∈ (s.after earlier).world.tasks,
    u.id = t.id → u.cancellation = .done → ∀ o, (s.after acts).world.outcomes t.id = [o] →
    ∃ more rest x, later = more ++ .move (.task t.id) :: rest ∧
      x ∈ (s.after (earlier ++ more)).world.tasks ∧ x.id = t.id ∧
      EndsCancelled (s.after (earlier ++ more)).world x route o
  /-- With it goes its listener. -/
  released : (∀ u ∈ (s.after acts).world.tasks, u.id ≠ t.id) → ∀ earlier later,
    acts = earlier ++ later → ∀ u ∈ (s.after earlier).world.tasks, u.id = t.id →
    ∀ sub seat, u.subscription? = some sub → sub.seat? = some seat →
      (s.after acts).world.Vacated seat

section Turns

variable (h : s.Sound) {u : Task} (hu : u ∈ s.world.tasks) {e : Errand}
    (he : u.job.errand? = some e)
include h hu he

private theorem Sound.route_of_subscribing {route route' : AnswerRoute Medium}
    (hroute : e.caller.answers = some route) {i : Nat} {call : CallId} {listener : ListenerId}
    (hst : u.stage = .subscribing route' i call listener) :
    route' = route ∧ route.medium = .link i := by
  have hplace := h.tidy.inPlace u hu
  rw [Task.InPlace, hst] at hplace
  obtain ⟨-, e', he', hroute', hmedium⟩ := hplace
  obtain ⟨rfl, rfl⟩ := Job.route_unique he hroute he' hroute'
  exact ⟨rfl, hmedium⟩

private theorem Sound.not_awaiting {route : AnswerRoute Medium}
    (hroute : e.caller.answers = some route) (courier : WorkId) : u.stage ≠ .awaiting courier := by
  intro hst
  have hplace := h.tidy.inPlace u hu
  rw [Task.InPlace, hst] at hplace
  obtain ⟨e', he', hnone, -⟩ := hplace
  obtain rfl := Option.some.inj (he.symm.trans he')
  rw [hroute] at hnone
  cases hnone

/-- In a quiet scene a task that was cancelled waits for its listener, and nothing else. -/
private theorem Sound.found_waiting (hquiet : s.IsQuiet) (hdone : u.cancellation = .done)
    {route : AnswerRoute Medium} (hroute : e.caller.answers = some route)
    (hpush : ∀ p, u.stage ≠ .pushing p)
    (hlink : ∀ i, route.medium = .link i → i < s.world.stations.length) :
    ∃ i call listener, route.medium = .link i ∧ u.stage = .subscribing route i call listener ∧
      s.world.callOutcome? i call = none := by
  obtain ⟨hfresh, hcall, harmed⟩ := h.stages_of_quiet hquiet hu
  cases hst : u.stage with
  | fresh =>
    have hidle := hfresh hst
    rw [Task.IsIdle, hst, he] at hidle
    obtain ⟨route', i, hroute', hmedium, hnone⟩ := hidle
    obtain rfl := Option.some.inj (hroute'.symm.trans hroute)
    exact absurd (hlink i hmedium) (Nat.not_lt.mpr (List.getElem?_eq_none_iff.mp hnone))
  | subscribing route' i call listener =>
    obtain ⟨rfl, hmedium⟩ := h.route_of_subscribing hu he hroute hst
    exact ⟨i, call, listener, hmedium, rfl, hcall _ _ _ _ hst⟩
  | armed route' sub => exact absurd hst (harmed route' sub)
  | watching v =>
    have hnone := h.verdict_of_quiet hquiet hu hst
    rw [World.verdict_of_cancelled hdone] at hnone
    cases hnone
  | awaiting courier => exact absurd hst (h.not_awaiting hu he hroute courier)
  | pushing p => exact absurd hst (hpush p)

/-- A task whose call has no outcome stays where it is when its turn comes. -/
private theorem Sound.lingers_act {route : AnswerRoute Medium} {i : Nat} {call : CallId}
    {listener : ListenerId} (hst : u.stage = .subscribing route i call listener)
    (ho : s.world.callOutcome? i call = none) (hd : (u.isDropped && !u.isBusy) = false) :
    ∃ x ∈ (s.act (.move (.task u.id))).world.tasks, x.id = u.id ∧ x.stage = u.stage ∧
      x.cancellation = u.cancellation := by
  obtain ⟨rs, hrs, -⟩ := stage_eq s (.move (.task u.id))
  have hnone : (s.stage (.move (.task u.id))).callOutcome? i call = none := by
    rw [hrs]
    exact ho
  have hother : ∀ {stage : Stage}, u.stage = stage → stage = .subscribing route i call listener :=
    fun hsame => hsame ▸ hst
  cases h.leaving hu (.move (.task u.id)) with
  | cleared ha hd' hgone ho' => rw [hd] at hd'; cases hd'
  | leaves pubs o ha hd' hl hgone ho' =>
    cases hl with
    | unconfirmed e' route' j call' listener' f hst' he' hf =>
      cases hother hst'
      cases hnone.symm.trans hf
    | pushed actor op answer p ending hjob hp hend => simp [Task.push?, hst] at hp
    | refused refusal hst' hjob => cases hother hst'
    | unarmed e' route' name script f hst' he' hroute' hmedium' hf => cases hother hst'
    | decided v r hst' hpoll => cases hother hst'
    | answered e' courier r hst' he' hr => cases hother hst'
  | stays t' W hfate hW ht' ho' =>
    rcases hfate.of_turn.2 with ⟨hidle, rfl⟩ | ⟨stage, isBusy, gain, hm, rfl, -⟩
    · simp [Task.IsIdle, hst, he] at hidle
    · cases hm with
      | waits hw => exact ⟨_, ht', rfl, rfl, rfl⟩
      | confirms e' route' j call' listener' hst' he' hok =>
        cases hother hst'
        cases hnone.symm.trans hok
      | pushes p busy hp hnone' => simp [Task.push?, hst] at hp
      | looks v hst' hpoll => cases hother hst'
      | launches e' route' sub v hst' he' hv => cases hother hst'
      | asks e' hst' he' hroute' => cases hother hst'
      | enlists e' route' name hst' he' hroute' hmedium' => cases hother hst'
      | feigns e' route' name script hst' he' hroute' hmedium' hok => cases hother hst'
      | calls e' route' j st hst' he' hroute' hmedium' hs => cases hother hst'

/-- A task that was cancelled leaves in one of the ways told. -/
private theorem Sound.endsCancelled_of_leaves (hdone : u.cancellation = .done)
    {route : AnswerRoute Medium} (hroute : e.caller.answers = some route) {pubs : List Publication}
    {o : Outcome} (hl : Leaves (s.stage (.move (.task u.id))) u pubs (some o)) :
    EndsCancelled s.world u route o := by
  obtain ⟨rs, hrs, -⟩ := stage_eq s (.move (.task u.id))
  cases hl with
  | refused refusal hst hjob => rw [hjob] at he; cases he
  | pushed actor op answer p ending hjob hp hend => rw [hjob] at he; cases he
  | unarmed e' route' name script f hst he' hroute' hmedium hf =>
    obtain ⟨rfl, rfl⟩ := Job.route_unique he hroute he' hroute'
    exact .unarmed name script f hst hmedium hf
  | unconfirmed e' route' i call listener f hst he' ho =>
    obtain ⟨rfl, -⟩ := h.route_of_subscribing hu he hroute hst
    rw [hrs] at ho
    exact .unconfirmed i call listener f hst ho
  | decided v r hst hpoll =>
    rw [view_stage] at hpoll
    obtain ⟨-, e', route', -, -, c, -, -, -, htracks⟩ := h.tidy.watching hu hst
    have hverdict : s.world.verdict u v = some r :=
      (Watch.poll_spec (v := s.world.view u v) htracks).1.symm.trans hpoll
    rw [World.verdict_of_cancelled hdone] at hverdict
    exact Option.some.inj hverdict ▸ .looked v hst
  | answered e' courier r hst he' hr => exact absurd hst (h.not_awaiting hu he hroute courier)

end Turns

/-- In every run, an exchange in async mode that was cancelled is found waiting for a link to
register its listener, or it has ended with its listener. -/
theorem cancelled_exchange_waits_for_its_listener_alone (hs : s.IsOpening) (before : List Act)
    {t : Task} (ht : t ∈ (s.after before).world.tasks) (hst : t.stage = .fresh) {e : Errand}
    (he : t.job.errand? = some e) {route : AnswerRoute Medium}
    (hroute : e.caller.answers = some route)
    (hlink : ∀ i, route.medium = .link i → i < s.world.stations.length) (acts : List Act) :
    (s.after before).HonoursCancellation t route acts := by
  have hsound := hs.sound_after before
  have hplaces : ∀ acts, (s.after acts).Sound ∧
      (s.after acts).world.stations.length = s.world.stations.length := by
    refine after_induction (P := fun s' => s'.Sound ∧
      s'.world.stations.length = s.world.stations.length) ⟨hs.sound_after [], rfl⟩ ?_
    rintro s' a ⟨h, hsame⟩
    exact ⟨h.act a, (h.places_act a).trans hsame⟩
  have hjob : ∀ {acts : List Act} {u : Task}, u ∈ ((s.after before).after acts).world.tasks →
      u.id = t.id → u.job = t.job ∧ ∀ p, u.stage ≠ .pushing p := by
    intro acts u hu hid
    refine hsound.task_induction (P := fun x => x.job = t.job ∧ ∀ p, x.stage ≠ .pushing p) ht
      ⟨rfl, fun p hp => by rw [hst] at hp; cases hp⟩ ?_ hu hid
    rintro w W a x x' hfate ⟨hsame, hpush⟩
    exact ⟨hfate.job_eq.2.trans hsame, hfate.not_pushing (hsame ▸ he) hpush⟩
  have hsome : ∀ {acts : List Act} {u : Task}, u ∈ ((s.after before).after acts).world.tasks →
      u.id = t.id → u.job.errand? = some e := fun hu hid => (hjob hu hid).1 ▸ he
  constructor
  · intro hquiet u hu hid hdone
    have hlink' : ∀ i, route.medium = .link i →
        i < ((s.after before).after acts).world.stations.length := by
      intro i hmedium
      rw [← after_append, (hplaces (before ++ acts)).2]
      exact hlink i hmedium
    exact (hsound.after acts).found_waiting hu (hsome hu hid) hquiet hdone hroute
      (hjob hu hid).2 hlink'
  · intro u hu hid i call listener hsub ho hd
    rw [← hid]
    exact (hsound.after acts).lingers_act hu (hsome hu hid) hsub ho hd
  · intro u hu hid hdone v hwatch hd
    rw [← hid]
    obtain ⟨hout, hgone⟩ := ((hsound.after acts).endsByVerdict hu hwatch).ends hd _
      (World.verdict_of_cancelled hdone)
    exact ⟨hgone, _, hout, .looked v hwatch⟩
  · rintro earlier later rfl u hu hid hdone o ho
    rw [after_append, ← hid] at ho
    obtain ⟨more, rest, x, pubs, hsplit, hx, hxid, hxjob, hl⟩ :=
      (hsound.after earlier).left_at hu ho
    have hxdone : x.cancellation = .done := (hsound.after earlier).task_induction
      (P := fun x => x.cancellation = .done) hu hdone (fun hfate => hfate.cancelled_of_done) hx hxid
    rw [← after_append] at hx hl
    rw [← hxid] at hl
    refine ⟨more, rest, x, by rw [hsplit, hid], hx, hxid.trans hid, ?_⟩
    exact (hsound.after (earlier ++ more)).endsCancelled_of_leaves hx (hxjob ▸ hsome hu hid) hxdone
      hroute hl
  · rintro hgone earlier later rfl u hu hid sub seat hsub hseat
    rw [after_append] at hgone ⊢
    exact (hsound.after earlier).vacated_of_gone hu hsub hseat fun x hx => hid ▸ hgone x hx

/-- An exchange over the hub that is cancelled while its POST is on its way. -/
theorem cancelled_exchange_honours_cancellation :
    let started := (opening [silentPeer]).after [.start "t0" firstJob .armed]
    let acts := [.move (.task 0), .move (.task 0), .cancel 0, .move (.task 0)]
    (opening [silentPeer]).IsOpening ∧
      started.HonoursCancellation { id := 0, name := "t0", job := firstJob, cancellation := .armed }
        ⟨.hub "x0", .ofMillis 1000, .failFast⟩ acts ∧
      (started.after acts).world.outcomes 0 = [.failed .cancelled] ∧
      (started.after acts).world.hub.total = 0 := by
  have hopening := opening_isOpening [silentPeer]
  have hsound := hopening.sound_after [.start "t0" firstJob .armed, .move (.task 0),
    .move (.task 0), .cancel 0]
  have hlook := (hsound.endsByVerdict (List.mem_singleton_self _) rfl).ends rfl
    (.error .cancelled) rfl
  refine ⟨hopening, ?_, hlook.1, by decide +kernel⟩
  exact cancelled_exchange_waits_for_its_listener_alone hopening [.start "t0" firstJob .armed]
    (List.mem_singleton_self _) rfl rfl rfl (fun i hmedium => by cases hmedium)
    [.move (.task 0), .move (.task 0), .cancel 0, .move (.task 0)]

/-- An exchange over a link whose broker gives no reply to the subscription. -/
def linkJob : Job :=
  .exchange ⟨0, some ⟨.link 0, .ofMillis 1000, .failFast⟩⟩ "k" [1]

/-- A scene with one link, whose broker gives no reply to a subscription. -/
def muteScene : Scene where
  world := {
    broker := { connections := [{}, {}], replies := [("SUBSCRIBE", [])] }
    stations := [{ publishLine := 0, listenLine := 1 }]
    peers := [silentPeer] }

/-- An exchange that is cancelled while the broker owes it the confirmation of its listener: nothing
goes on by itself, no payload has come, and it is still there with its listener. -/
theorem unconfirmed_exchange_is_left_waiting :
    let s := muteScene.after [.start "t0" linkJob .armed, .move (.task 0), .move (.task 0),
      .move (.agent 0), .move (.agent 0), .cancel 0, .move (.task 0)]
    muteScene.IsOpening ∧ s.IsQuiet ∧
      s.world.tasks.map (fun t => (t.id, t.cancellation)) = [(0, .done)] ∧
      (s.world.outcomes 0).length = 0 ∧ s.world.sight (.link 0 "k" 0) = .empty ∧
      s.world.stations.map (·.link.listeners.total) = [1] := by
  refine ⟨⟨rfl, rfl, rfl, rfl, Listeners.InOrder.empty, rfl⟩, ⟨?_, ?_⟩, ?_, ?_, ?_, ?_⟩ <;>
    decide +kernel

end Scene

end Roaming.Simulation
