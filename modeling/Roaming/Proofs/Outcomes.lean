import Roaming.Proofs.Endings

/-!
# How an exchange in async mode ends

A task that watches ends at the first look that finds a verdict, with this verdict as its
outcome, and by nothing else. The verdict names the first that holds: a payload is there, the
inbox is closed, the POST has failed and the policy is not to go on, the time is over, the
caller has given up.
-/

set_option autoImplicit false
set_option relaxedAutoImplicit false

namespace Roaming.Simulation

open Roaming.Text (Bytes)

/-- Whether a task is the same as another that watches, further on: it may have seen the end of its
POST meanwhile. -/
structure Task.KeepsWatch (t : Task) (v : Vigil) (u : Task) (v' : Vigil) : Prop where
  id : u.id = t.id
  job : u.job = t.job
  stage : u.stage = .watching v'
  vigil : ∃ b, v' = { v with watch := { v.watch with sendPending := b } }

theorem Task.KeepsWatch.trans {t u x : Task} {v v' v'' : Vigil} (h : t.KeepsWatch v u v')
    (h' : u.KeepsWatch v' x v'') : t.KeepsWatch v x v'' where
  id := h'.id.trans h.id
  job := h'.job.trans h.job
  stage := h'.stage
  vigil := by
    obtain ⟨b, rfl⟩ := h.vigil
    obtain ⟨b', rfl⟩ := h'.vigil
    exact ⟨b', rfl⟩

/-- How the exchange of a task that watches comes to its end. -/
structure Scene.EndsByVerdict (s : Scene) (t : Task) (v : Vigil) : Prop where
  /-- A look that finds a verdict ends the exchange. -/
  ends : (t.isDropped && !t.isBusy) = false → ∀ r, s.world.verdict t v = some r →
    (s.act (.move (.task t.id))).world.outcomes t.id = [t.job.outcome r] ∧
      ∀ u ∈ (s.act (.move (.task t.id))).world.tasks, u.id ≠ t.id
  /-- A look that finds none leaves it as it is, but remembers the end of the POST. -/
  goesOn : (t.isDropped && !t.isBusy) = false → s.world.verdict t v = none →
    (s.act (.move (.task t.id))).world.outcomes t.id = [] ∧
      { t with
        stage := .watching { v with watch := { v.watch with
          sendPending := v.watch.sendPending && (s.world.ending? v.courier).isNone } }
        isBusy := false } ∈ (s.act (.move (.task t.id))).world.tasks
  /-- A task that was dropped looks no more, and comes to no outcome. -/
  cleared : (t.isDropped && !t.isBusy) = true →
    (s.act (.move (.task t.id))).world.outcomes t.id = [] ∧
      ∀ u ∈ (s.act (.move (.task t.id))).world.tasks, u.id ≠ t.id
  /-- No other act ends it or changes what it waits for. -/
  undisturbed : ∀ a, a ≠ .move (.task t.id) →
    (s.act a).world.outcomes t.id = [] ∧ ∃ u ∈ (s.act a).world.tasks, t.KeepsWatch v u v
  /-- It is not left waiting where there is a verdict. -/
  quiet : s.IsQuiet → s.world.verdict t v = none
  /-- A POST that was acknowledged has no part in the verdict. -/
  acknowledged : ∀ ending, s.world.ending? v.courier = some ending →
    (∃ r, ending.outcome = .ok r) ∨ v.watch.policy = .awaitAnswer →
    s.world.verdict t v = v.watch.verdict { s.world.view t v with sent := none }
  /-- Once its end was seen, no look depends on it. -/
  seenOnce : v.watch.sendPending = false → ∀ sent,
    v.watch.poll { s.world.view t v with sent } = v.watch.poll (s.world.view t v)
  /-- The time for the answer is over before it is said to be, unless this is how the POST
  failed. -/
  inTime : s.world.verdict t v = some (.error .asyncTimeout) →
    v.due ≤ s.world.now ∨
      v.watch.sendFailure? (s.world.ending? v.courier) = some .asyncTimeout

/-- Whether no look of a task that watches found a verdict during acts. -/
def Scene.Undecided (s : Scene) (acts : List Act) (id : WorkId) : Prop :=
  ∀ earlier later, acts = earlier ++ .move (.task id) :: later →
    ∀ u ∈ (s.after earlier).world.tasks, u.id = id → ∀ v, u.stage = .watching v →
      (s.after earlier).world.verdict u v = none

/-- What the exchange of a task that watches comes to in the course of acts: it waits, or it has
ended with the first verdict that a look found, or it was dropped before. -/
inductive Scene.Course (s : Scene) (t : Task) (v : Vigil) : List Act → Prop where
  | waits (acts : List Act) (u : Task) (v' : Vigil) (hu : u ∈ (s.after acts).world.tasks)
      (hsame : t.KeepsWatch v u v') (hnone : s.Undecided acts t.id)
      (ho : (s.after acts).world.outcomes t.id = []) : Course s t v acts
  | ends (earlier later : List Act) (u : Task) (v' : Vigil) (r : Except Failure Bytes)
      (hu : u ∈ (s.after earlier).world.tasks) (hsame : t.KeepsWatch v u v')
      (hnone : s.Undecided earlier t.id) (hr : (s.after earlier).world.verdict u v' = some r)
      (ho : (s.after (earlier ++ .move (.task t.id) :: later)).world.outcomes t.id =
        [t.job.outcome r]) : Course s t v (earlier ++ .move (.task t.id) :: later)
  | dropped (earlier later : List Act) (u : Task) (v' : Vigil)
      (hu : u ∈ (s.after earlier).world.tasks) (hsame : t.KeepsWatch v u v')
      (hnone : s.Undecided earlier t.id) (hd : u.isDropped = true)
      (ho : (s.after (earlier ++ .move (.task t.id) :: later)).world.outcomes t.id = []) :
      Course s t v (earlier ++ .move (.task t.id) :: later)

namespace Scene

variable {s : Scene}

/-- What a look of a task that watches comes to. -/
private theorem look_spec (h : s.Sound) {t : Task} (ht : t ∈ s.world.tasks) {v : Vigil}
    (hst : t.stage = .watching v) (hd : (t.isDropped && !t.isBusy) = false) :
    match s.world.verdict t v with
    | some r => (s.act (.move (.task t.id))).world.outcomes t.id = [t.job.outcome r] ∧
        ∀ u ∈ (s.act (.move (.task t.id))).world.tasks, u.id ≠ t.id
    | none => (s.act (.move (.task t.id))).world.outcomes t.id = [] ∧
        { t with
          stage := .watching { v with watch := { v.watch with
            sendPending := v.watch.sendPending && (s.world.ending? v.courier).isNone } }
          isBusy := false } ∈ (s.act (.move (.task t.id))).world.tasks := by
  obtain ⟨-, e, route, -, -, c, -, -, -, htracks⟩ := h.tidy.watching ht hst
  obtain ⟨houtcome, hwatch⟩ := Watch.poll_spec (v := s.world.view t v) htracks
  have hstage : ∀ {stage : Stage}, t.stage = stage → stage = .watching v := fun hs => hs ▸ hst
  cases h.leaving ht (.move (.task t.id)) with
  | cleared ha hd' hgone ho => rw [hd] at hd'; cases hd'
  | stays t' W hfate hW ht' ho =>
    rcases hfate.of_turn.2 with ⟨hidle, -⟩ | ⟨stage, isBusy, gain, hm, rfl, -⟩
    · simp [Task.IsIdle, hst] at hidle
    · cases hm with
      | waits hw => rw [Task.IsWaiting, hst] at hw; exact hw.elim
      | looks v' hst' hpoll =>
        cases hstage hst'
        rw [view_stage] at hpoll ht'
        have hnone : s.world.verdict t v = none := houtcome.symm.trans hpoll
        rw [hwatch hnone] at ht'
        rw [hnone]
        exact ⟨ho, ht'⟩
      | pushes p busy hp hnone => simp [Task.push?, hst] at hp
      | asks e hst' he' hroute => cases hstage hst'
      | enlists e route name hst' he' hroute hmedium => cases hstage hst'
      | feigns e route name script hst' he' hroute hmedium hok => cases hstage hst'
      | calls e route i s' hst' he' hroute hmedium hs => cases hstage hst'
      | confirms e route i call listener hst' he' ho => cases hstage hst'
      | launches e route sub v' hst' he' hv => cases hstage hst'
  | leaves pubs o ha hd' hl hgone ho =>
    cases hl with
    | decided v' r hst' hpoll =>
      cases hstage hst'
      rw [view_stage] at hpoll
      have hsome : s.world.verdict t v = some r := houtcome.symm.trans hpoll
      rw [hsome]
      exact ⟨ho, hgone⟩
    | refused refusal hst' hjob => cases hstage hst'
    | unarmed e route name script f hst' he' hroute hmedium hf => cases hstage hst'
    | unconfirmed e route i call listener f hst' he' ho => cases hstage hst'
    | answered e courier r hst' he' hr => cases hstage hst'
    | pushed actor op answer p ending hjob hp hend => simp [Task.push?, hst] at hp

/-- A task that watches is left alone by all acts but its own. -/
private theorem undisturbed_act (h : s.Sound) {t : Task} (ht : t ∈ s.world.tasks) {v : Vigil}
    (hst : t.stage = .watching v) {a : Act} (hne : a ≠ .move (.task t.id)) :
    (s.act a).world.outcomes t.id = [] ∧ ∃ u ∈ (s.act a).world.tasks, t.KeepsWatch v u v := by
  obtain ⟨u, hu, hid, hjob, hstage⟩ := h.stays_of_other ht hne
  have ho := (h.act a).outcomes_of_mem hu
  rw [hid] at ho
  exact ⟨ho, u, hu, hid, hjob, hstage.trans hst, v.watch.sendPending, rfl⟩

theorem Sound.endsByVerdict (h : s.Sound) {t : Task} (ht : t ∈ s.world.tasks) {v : Vigil}
    (hst : t.stage = .watching v) : s.EndsByVerdict t v where
  ends hd r hr := by
    have hlook := look_spec h ht hst hd
    rw [hr] at hlook
    exact hlook
  goesOn hd hnone := by
    have hlook := look_spec h ht hst hd
    rw [hnone] at hlook
    exact hlook
  cleared hd := (h.cleared_act ht hd).symm
  undisturbed a hne := undisturbed_act h ht hst hne
  quiet hquiet := h.verdict_of_quiet hquiet ht hst
  acknowledged ending hend hack := by
    have hfailure : v.watch.sendFailure? (some ending) = none := by
      unfold Watch.sendFailure?
      rcases hack with ⟨r, hr⟩ | hpolicy
      · rw [Option.map_some, hr]
        cases v.watch.policy <;> rfl
      · rw [hpolicy]
    have hnone : v.watch.sendFailure? none = none := by
      unfold Watch.sendFailure?
      cases v.watch.policy <;> rfl
    have hsent : (s.world.view t v).sent = some ending := hend
    unfold World.verdict Watch.verdict
    simp only [hsent, hfailure, hnone]
  seenOnce hseen sent := Watch.poll_congr_sent hseen (s.world.view t v) sent
  inTime hverdict := by
    by_cases hdue : v.due ≤ s.world.now
    · exact .inl hdue
    · right
      have hexpired : (s.world.view t v).expired = false := by simpa [World.view] using hdue
      have hsent : (s.world.view t v).sent = s.world.ending? v.courier := rfl
      unfold World.verdict Watch.verdict at hverdict
      rw [hexpired, hsent] at hverdict
      split at hverdict
      · simp at hverdict
      · simp at hverdict
      · split at hverdict
        · rename_i f hf
          rw [hf]
          exact congrArg some (by simpa using hverdict)
        · rw [if_neg (by simp)] at hverdict
          split at hverdict <;> simp at hverdict

/-! ### The course of an exchange -/

private theorem undecided_nil (id : WorkId) : s.Undecided [] id := by
  intro earlier later hsplit
  have hlen := congrArg List.length hsplit
  rw [List.length_append, List.length_cons, List.length_nil] at hlen
  omega

private theorem undecided_cons {a : Act} {acts : List Act} {id : WorkId}
    (h : (s.act a).Undecided acts id)
    (hnow : a = .move (.task id) → ∀ u ∈ s.world.tasks, u.id = id → ∀ v, u.stage = .watching v →
      s.world.verdict u v = none) : s.Undecided (a :: acts) id := by
  intro earlier later hsplit
  cases earlier with
  | nil =>
    obtain ⟨ha, -⟩ := List.cons.inj hsplit
    exact hnow ha
  | cons b earlier =>
    obtain ⟨rfl, hrest⟩ := List.cons.inj hsplit
    exact h earlier later hrest

/-- What has begun with an act that decides nothing goes on as it does from there. -/
private theorem Course.cons {t u : Task} {v v' : Vigil} {a : Act} {acts : List Act}
    (h : (s.act a).Course u v' acts) (hsame : t.KeepsWatch v u v')
    (hnow : a = .move (.task t.id) → ∀ u ∈ s.world.tasks, u.id = t.id → ∀ v,
      u.stage = .watching v → s.world.verdict u v = none) : s.Course t v (a :: acts) := by
  cases h with
  | waits acts x v'' hx hsame' hnone ho =>
    rw [hsame.id] at hnone ho
    exact .waits _ x v'' hx (hsame.trans hsame') (undecided_cons hnone hnow) ho
  | ends earlier later x v'' r hx hsame' hnone hr ho =>
    rw [hsame.id] at hnone ho ⊢
    rw [hsame.job] at ho
    exact .ends (a :: earlier) later x v'' r hx (hsame.trans hsame')
      (undecided_cons hnone hnow) hr ho
  | dropped earlier later x v'' hx hsame' hnone hd ho =>
    rw [hsame.id] at hnone ho ⊢
    exact .dropped (a :: earlier) later x v'' hx (hsame.trans hsame')
      (undecided_cons hnone hnow) hd ho

theorem Sound.course (h : s.Sound) {t : Task} (ht : t ∈ s.world.tasks) {v : Vigil}
    (hst : t.stage = .watching v) (acts : List Act) : s.Course t v acts := by
  induction acts generalizing s t v with
  | nil =>
    exact .waits [] t v ht ⟨rfl, rfl, hst, v.watch.sendPending, rfl⟩ (undecided_nil t.id)
      (h.outcomes_of_mem ht)
  | cons a acts ih =>
    have hends := h.endsByVerdict ht hst
    have hself : t.KeepsWatch v t v := ⟨rfl, rfl, hst, v.watch.sendPending, rfl⟩
    by_cases ha : a = .move (.task t.id)
    · subst ha
      by_cases hd : (t.isDropped && !t.isBusy) = true
      · obtain ⟨hnone, hgone⟩ := hends.cleared hd
        have hdropped : t.isDropped = true := (Bool.and_eq_true _ _ ▸ hd).1
        refine .dropped [] acts t v ht hself (undecided_nil t.id) hdropped ?_
        rw [List.nil_append, after_cons, ← hnone]
        exact ((h.act _).gone_after (h.lt_nextId ht _) hgone acts).2
      · have hd' : (t.isDropped && !t.isBusy) = false := by simpa using hd
        cases hv : s.world.verdict t v with
        | some r =>
          obtain ⟨ho, hgone⟩ := hends.ends hd' r hv
          refine .ends [] acts t v r ht hself (undecided_nil t.id) hv ?_
          rw [List.nil_append, after_cons, ← ho]
          exact ((h.act _).gone_after (h.lt_nextId ht _) hgone acts).2
        | none =>
          obtain ⟨-, ht'⟩ := hends.goesOn hd' hv
          refine Course.cons (ih (h.act _) ht' rfl) ⟨rfl, rfl, rfl, _, rfl⟩
            fun _ u hu huid v' hst' => ?_
          have hut := h.seated.task_unique hu ht huid
          subst hut
          rw [hst] at hst'
          cases hst'
          exact hv
    · obtain ⟨-, u, hu, hsame⟩ := hends.undisturbed a ha
      exact Course.cons (ih (h.act a) hu hsame.stage) hsame fun ha' => absurd ha' ha

/-- A task that watches goes with what a verdict says. -/
theorem Sound.verdict_of_leaves (h : s.Sound) {t : Task} (ht : t ∈ s.world.tasks) {v : Vigil}
    (hst : t.stage = .watching v) (hd : (t.isDropped && !t.isBusy) = false) {o : Outcome}
    (ho : (s.act (.move (.task t.id))).world.outcomes t.id = [o]) :
    ∃ r, s.world.verdict t v = some r ∧ o = t.job.outcome r := by
  have hends := h.endsByVerdict ht hst
  cases hverdict : s.world.verdict t v with
  | none =>
    rw [(hends.goesOn hd hverdict).1] at ho
    cases ho
  | some r =>
    rw [(hends.ends hd r hverdict).1] at ho
    exact ⟨r, rfl, (List.cons.inj ho).1.symm⟩

/-- Whether a wait is still to begin, or has begun at a time or later. -/
private def WaitsSince (n : Nat) (stage : Stage) : Prop :=
  (∃ route sub, stage = .armed route sub) ∨ ∃ v, stage = .watching v ∧ n ≤ v.since

private theorem waitsSince_moves {w : World} {t : Task} {stage : Stage} {isBusy : Bool}
    {gain : Gain} (hm : Moves w t stage isBusy gain) {n : Nat} (hnow : n ≤ w.now)
    (hst : WaitsSince n t.stage) : WaitsSince n stage := by
  have hnot : ∀ {stage : Stage}, t.stage = stage → WaitsSince n stage := fun hs => hs ▸ hst
  cases hm with
  | waits hw => exact hst
  | confirms e route i call listener hst' he ho => exact .inl ⟨_, _, rfl⟩
  | enlists e route name hst' he hroute hmedium => exact .inl ⟨_, _, rfl⟩
  | feigns e route name script hst' he hroute hmedium hok => exact .inl ⟨_, _, rfl⟩
  | launches e route sub v hst' he hv =>
    refine .inr ⟨v, rfl, ?_⟩
    rw [hv]
    exact hnow
  | looks v hst' hpoll =>
    rcases hnot hst' with ⟨route, sub, hsub⟩ | ⟨v', hv', hn⟩
    · cases hsub
    · cases hv'
      exact .inr ⟨_, rfl, hn⟩
  | asks e hst' he hroute => rcases hnot hst' with ⟨_, _, hsub⟩ | ⟨_, hv, _⟩ <;> contradiction
  | calls e route i st hst' he hroute hmedium hs =>
    rcases hnot hst' with ⟨_, _, hsub⟩ | ⟨_, hv, _⟩ <;> contradiction
  | pushes p busy hp hnone =>
    rcases hst with ⟨_, _, hsub⟩ | ⟨_, hv, _⟩
    · simp [Task.push?, hsub] at hp
    · simp [Task.push?, hv] at hp

/-- A wait begins after the listener was registered. -/
private theorem since_ge {n : Nat} {id : WorkId} (acts : List Act) (h : s.Sound)
    (hnow : n ≤ s.world.now) (hid : id < s.world.nextId)
    (hst : ∀ t ∈ s.world.tasks, t.id = id → WaitsSince n t.stage) :
    ∀ t ∈ (s.after acts).world.tasks, t.id = id → ∀ v, t.stage = .watching v → n ≤ v.since := by
  induction acts generalizing s with
  | nil =>
    intro t ht htid v hv
    rcases hst t ht htid with ⟨route, sub, hsub⟩ | ⟨v', hv', hn⟩
    · rw [hsub] at hv
      cases hv
    · rw [hv'] at hv
      cases hv
      exact hn
  | cons a acts ih =>
    obtain ⟨W, rs, he, hleads, -⟩ := act_effect h.seated a
    obtain ⟨rs₀, hrs, -⟩ := stage_eq s a
    have hnow' : s.world.now ≤ (s.act a).world.now := by
      rw [h.now_act]
      split
      · exact Nat.le_max_left _ _
      · exact Nat.le_refl _
    refine ih (h.act a) (Nat.le_trans hnow hnow') (Nat.lt_of_lt_of_le hid (h.nextId_act a)) ?_
    intro t' ht' htid
    rw [hleads.alike.tasks] at ht'
    rcases he.origin (h.seated.stage a) ht' with ⟨t, ht, hfate⟩ | ⟨name, job, cancellation, -, rfl⟩
    · have hold := hst t ((mem_stage a).mp ht) (hfate.id_eq.symm.trans htid)
      cases hfate with
      | kept hne => exact hold
      | cancelled ha => exact hold
      | dropped ha => exact hold
      | still ha hd hidle hW => exact hold
      | moved ha hd stage isBusy gain hm hW =>
        refine waitsSince_moves hm ?_ hold
        rw [hrs]
        exact hnow
    · rw [hrs] at htid
      exact absurd htid.symm (Nat.ne_of_lt hid)

/-- In every reachable scene a task that watches does so for its exchange, over what its correlator
has configured, and ends with the first verdict that it finds; its time is counted from after its
listener was registered. -/
theorem armed_exchange_ends_by_verdict (hs : s.IsOpening) (acts : List Act) {t : Task} {v : Vigil}
    (ht : t ∈ (s.after acts).world.tasks) (hst : t.stage = .watching v) :
    (s.after acts).EndsByVerdict t v ∧ (∀ more, (s.after acts).Course t v more) ∧
      ∃ e route, t.job.errand? = some e ∧ v.For e route ∧
        (∃ c ∈ (s.after acts).world.couriers, c.id = v.courier ∧ c.Serves t.id e) ∧
        v.due = v.since + route.timeout.millis ∧
        route.timeout.nanos ≤ route.timeout.millis * 1000000 ∧
        ∀ earlier later, acts = earlier ++ later → ∀ u ∈ (s.after earlier).world.tasks,
          u.id = t.id → ∀ route' sub, u.stage = .armed route' sub →
          (s.after earlier).world.now ≤ v.since := by
  have hsound := hs.sound_after acts
  obtain ⟨-, e, route, he, hfor, c, hc, hid, hserves, -⟩ := hsound.tidy.watching ht hst
  refine ⟨hsound.endsByVerdict ht hst, hsound.course ht hst, e, route, he, hfor,
    ⟨c, hc, hid, hserves⟩, ?_, ?_, ?_⟩
  · rw [Vigil.due, hfor.timeout]
  · unfold Duration.millis
    omega
  · rintro earlier later rfl u hu huid route' sub harmed
    have hearlier := hs.sound_after earlier
    rw [after_append] at ht
    refine since_ge later hearlier (Nat.le_refl _) (hearlier.seated.ids_lt u hu) ?_ t ht
      huid.symm v hst
    intro t' ht' htid
    rw [hearlier.seated.task_unique ht' hu htid]
    exact .inl ⟨route', sub, harmed⟩

/-- The first exchange of a scene, which is answered before it looks. -/
theorem answered_exchange_ends_with_payload :
    (((opening [silentPeer]).after [.start "t0" firstJob .never, .move (.task 0), .move (.task 0),
      .publish "k" [7]]).act (.move (.task 0))).world.outcomes 0 = [.delivered [7]] := by
  have hends := armed_exchange_ends_by_verdict (opening_isOpening [silentPeer])
    [.start "t0" firstJob .never, .move (.task 0), .move (.task 0), .publish "k" [7]]
    (List.mem_singleton_self _) rfl
  have hlook := hends.1.ends rfl (.ok [7]) rfl
  exact hlook.1

end Scene

end Roaming.Simulation
