import Roaming.Proofs.Wakefulness

/-!
# What an act leaves of a task

A task has no outcome while it is there, and one at most after it has gone; its number is not used
again. The outcomes of a task are thus a list that an act extends once, when the task leaves. The
fates of tasks and POSTs are told here of scenes.
-/

set_option autoImplicit false
set_option relaxedAutoImplicit false

namespace Roaming.Simulation

/-- The outcomes of a task. -/
def World.outcomes (id : WorkId) (w : World) : List Outcome :=
  (w.ended.filter (·.task = id)).map (·.outcome)

theorem World.outcomes_congr {w w' : World} (h : w'.ended = w.ended) (id : WorkId) :
    w'.outcomes id = w.outcomes id := by
  rw [outcomes, outcomes, h]

theorem World.outcomes_more {w w' : World} {t : Task} {o : Outcome}
    (h : w'.ended = w.ended ++ [⟨t.id, t.name, o⟩]) (id : WorkId) :
    w'.outcomes id = w.outcomes id ++ if t.id = id then [o] else [] := by
  rw [outcomes, outcomes, h, List.filter_append, List.map_append]
  by_cases hid : t.id = id
  · rw [if_pos hid, List.filter_cons_of_pos (by simpa using hid)]
    rfl
  · rw [if_neg hid, List.filter_cons_of_neg (by simpa using hid)]
    rfl

/-- A listener that a task has stays with it. -/
theorem Fate.subscription_eq {w W : World} {a : Act} {t t' : Task} (h : Fate w W a t (some t'))
    {sub : Subscription} (hsub : t.subscription? = some sub) : t'.subscription? = some sub := by
  cases h with
  | kept hne => exact hsub
  | cancelled ha => exact hsub
  | dropped ha => exact hsub
  | still ha hd hidle hW => exact hsub
  | moved ha hd stage isBusy gain hm hW =>
    have hmoves := Scene.moves_subscription hm
    cases gain with
    | listener place key =>
      rw [hsub] at hmoves
      cases hmoves.1
    | nothing =>
      rcases hmoves with hsame | ⟨hnone, -⟩
      · exact hsame.trans hsub
      · rw [hsub] at hnone
        cases hnone
    | courier peer body alarm =>
      rcases hmoves with hsame | ⟨hnone, -⟩
      · exact hsame.trans hsub
      · rw [hsub] at hnone
        cases hnone

/-- A task with a listener on the hub is armed or watches. -/
theorem Task.stage_of_hub {t : Task} {key : Key} {l : ListenerId}
    (h : t.subscription? = some (.hub key l)) :
    (∃ route, t.stage = .armed route (.hub key l)) ∨
      ∃ v, t.stage = .watching v ∧ v.subscription = .hub key l := by
  unfold Task.subscription? at h
  cases hst : t.stage with
  | armed route sub =>
    rw [hst] at h
    exact .inl ⟨route, by rw [Option.some.inj h]⟩
  | watching v =>
    rw [hst] at h
    exact .inr ⟨v, rfl, Option.some.inj h⟩
  | subscribing route i call listener => simp [hst] at h
  | fresh => simp [hst] at h
  | awaiting courier => simp [hst] at h
  | pushing p => simp [hst] at h

/-- What an act leaves of a task, and of its outcomes. -/
inductive Scene.Leaving (s : Scene) (a : Act) (t : Task) (s' : Scene) : Prop where
  | stays (t' : Task) (W : World) (hfate : Fate (s.stage a) W a t (some t'))
      (hW : W.Alike s'.world) (ht' : t' ∈ s'.world.tasks) (ho : s'.world.outcomes t.id = [])
  | leaves (pubs : List Publication) (o : Option Outcome) (ha : a = .move (.task t.id))
      (hd : (t.isDropped && !t.isBusy) = false) (hl : Leaves (s.stage a) t pubs o)
      (hgone : ∀ u ∈ s'.world.tasks, u.id ≠ t.id) (ho : s'.world.outcomes t.id = o.toList)
      (hhub : s'.world.hub = (((s.stage a).offered pubs).left t o).hub)
  | cleared (ha : a = .move (.task t.id)) (hd : (t.isDropped && !t.isBusy) = true)
      (hgone : ∀ u ∈ s'.world.tasks, u.id ≠ t.id) (ho : s'.world.outcomes t.id = [])
      (hhub : s'.world.hub = ((s.stage a).left t none).hub)

namespace Scene

variable {s : Scene}

theorem mem_stage {t : Task} (a : Act) : t ∈ (s.stage a).tasks ↔ t ∈ s.world.tasks := by
  obtain ⟨rs, hrs, -⟩ := stage_eq s a
  rw [hrs]

/-! ### Tasks -/

theorem Sound.outcomes_of_mem (h : s.Sound) {t : Task} (ht : t ∈ s.world.tasks) :
    s.world.outcomes t.id = [] := by
  rw [World.outcomes, List.map_eq_nil_iff, List.filter_eq_nil_iff]
  intro x hx hid
  exact (h.settled x hx).2 t ht (of_decide_eq_true hid).symm

theorem Sound.leaving (h : s.Sound) {t : Task} (ht : t ∈ s.world.tasks) (a : Act) :
    s.Leaving a t (s.act a) := by
  obtain ⟨W, rs, he, hleads, -⟩ := act_effect h.seated a
  obtain ⟨rs₀, hrs, -⟩ := stage_eq s a
  have hended : (s.stage a).ended = s.world.ended := by rw [hrs]
  have hnone : s.world.outcomes t.id = [] := h.outcomes_of_mem ht
  obtain ⟨o, hfate, hmem⟩ := he.fate (h.seated.stage a) ((mem_stage a).mpr ht)
  have hsame : W.ended = (s.stage a).ended → (s.act a).world.outcomes t.id = [] := by
    intro hW
    rw [← hnone]
    exact World.outcomes_congr (hleads.alike.ended.trans (hW.trans hended)) t.id
  cases o with
  | some t' =>
    rw [← hleads.alike.tasks] at hmem
    refine .stays t' W hfate hleads.alike hmem ?_
    rw [← hfate.id_eq]
    exact (h.act a).outcomes_of_mem hmem
  | none =>
    have hgone : ∀ u ∈ (s.act a).world.tasks, u.id ≠ t.id := by
      rw [hleads.alike.tasks]
      exact hmem
    cases hfate with
    | cleared ha hd hW =>
      refine .cleared ha hd hgone (hsame ?_) (hW ▸ hleads.alike.hub)
      rw [hW, World.ended_left]
      exact List.append_nil _
    | left ha hd pubs o hl hW =>
      refine .leaves pubs o ha hd hl hgone ?_ (hW ▸ hleads.alike.hub)
      have hmore : (s.act a).world.ended =
          s.world.ended ++ (o.map fun o => ⟨t.id, t.name, o⟩).toList := by
        rw [hleads.alike.ended, hW, World.ended_left, World.offered, World.ended_onListeners,
          hended]
      cases o with
      | none => exact (World.outcomes_congr (hmore.trans (List.append_nil _)) t.id).trans hnone
      | some o =>
        rw [World.outcomes_more hmore, hnone, if_pos rfl]
        rfl

/-- A task stays at its stage while it is not its turn. -/
theorem Sound.stays_of_other (h : s.Sound) {t : Task} (ht : t ∈ s.world.tasks) {a : Act}
    (ha : a ≠ .move (.task t.id)) :
    ∃ t' ∈ (s.act a).world.tasks, t'.id = t.id ∧ t'.job = t.job ∧ t'.stage = t.stage := by
  cases h.leaving ht a with
  | leaves pubs o ha' hd hl hgone ho => exact absurd ha' ha
  | cleared ha' hd hgone ho => exact absurd ha' ha
  | stays t' W hfate hW ht' ho =>
    refine ⟨t', ht', hfate.id_eq, hfate.job_eq.2, ?_⟩
    cases hfate with
    | kept hne => rfl
    | cancelled ha' => rfl
    | dropped ha' => rfl
    | still ha' hd hidle hW => rfl
    | moved ha' hd stage isBusy gain hm hW => exact absurd ha' ha

theorem Seated.cancel_mem (h : s.Seated) {t : Task} (ht : t ∈ s.world.tasks) :
    { t with cancellation := .done } ∈ (s.act (.cancel t.id)).world.tasks := by
  simp only [Scene.act, World.cancel, h.task?_eq ht]
  rw [(World.aside_wake _ _).tasks]
  exact World.mem_putTask.mpr (.inr ⟨rfl, t, ht, rfl⟩)

theorem Seated.drop_mem (h : s.Seated) {t : Task} (ht : t ∈ s.world.tasks) :
    { t with isDropped := true } ∈ (s.act (.drop t.id)).world.tasks := by
  simp only [Scene.act, World.drop, h.task?_eq ht]
  rw [(World.aside_wake _ _).tasks]
  exact World.mem_putTask.mpr (.inr ⟨rfl, t, ht, rfl⟩)

/-- A task that was dropped goes without an outcome when its next turn begins. -/
theorem Sound.cleared_act (h : s.Sound) {t : Task} (ht : t ∈ s.world.tasks)
    (hd : (t.isDropped && !t.isBusy) = true) :
    (∀ u ∈ (s.act (.move (.task t.id))).world.tasks, u.id ≠ t.id) ∧
      (s.act (.move (.task t.id))).world.outcomes t.id = [] := by
  cases h.leaving ht (.move (.task t.id)) with
  | cleared ha hd' hgone ho => exact ⟨hgone, ho⟩
  | leaves pubs o ha hd' hl hgone ho => rw [hd] at hd'; cases hd'
  | stays u W hfate hW hu ho =>
    have hd' := hfate.of_turn.1
    rw [hd] at hd'
    cases hd'

/-! ### POSTs, the clock and the numbers -/

/-- A POST stays as it is, or is moved while it has not ended. -/
theorem Sound.courier_fate (h : s.Sound) {c : Courier} (hc : c ∈ s.world.couriers) (a : Act) :
    (c ∈ (s.act a).world.couriers ∧ (a = .move (.post c.id) → c.post.ending?.isSome)) ∨
      (a = .move (.post c.id) ∧
        { c with post := s.world.advanced c.post } ∈ (s.act a).world.couriers) := by
  obtain ⟨W, rs, he, hleads, -⟩ := act_effect h.seated a
  obtain ⟨rs₀, hrs, -⟩ := stage_eq s a
  have hcw : c ∈ (s.stage a).couriers := by
    rw [hrs]
    exact hc
  have hadvanced : (s.stage a).advanced c.post = s.world.advanced c.post := by
    rw [hrs]
    rfl
  rw [hleads.alike.couriers, ← hadvanced]
  rcases he.courier_fate (tidy_stage h.tidy a) hcw with hkept | ⟨ha, -, hc', -⟩
  · exact .inl hkept
  · exact .inr ⟨ha, hc'⟩

/-- Only a ring moves the clock. -/
theorem Sound.now_act (h : s.Sound) (a : Act) :
    (s.act a).world.now = match a with
      | .ring time => max s.world.now time
      | _ => s.world.now := by
  obtain ⟨W, rs, he, hleads, -⟩ := act_effect h.seated a
  obtain ⟨rs₀, hrs, -⟩ := stage_eq s a
  rw [hleads.alike.now]
  rcases he.onward with ⟨honward, hne⟩ | ⟨time, rfl, rfl, -⟩
  · rw [honward.now, hrs]
    split
    · rename_i time
      exact absurd rfl (hne time)
    · rfl
  · rfl

/-- No link is new, and none is gone. -/
theorem Sound.places_act (h : s.Sound) (a : Act) :
    (s.act a).world.stations.length = s.world.stations.length := by
  obtain ⟨W, rs, he, hleads, -⟩ := act_effect h.seated a
  obtain ⟨rs₀, hrs, -⟩ := stage_eq s a
  have hplaces := he.places
  rw [hrs] at hplaces
  exact hleads.alike.places.trans hplaces

theorem Sound.nextId_act (h : s.Sound) (a : Act) : s.world.nextId ≤ (s.act a).world.nextId := by
  obtain ⟨W, rs, he, hleads, -⟩ := act_effect h.seated a
  obtain ⟨rs₀, hrs, -⟩ := stage_eq s a
  have hle := he.nextId_le
  rw [hrs] at hle
  rw [hleads.alike.nextId]
  exact hle

theorem Sound.lt_nextId (h : s.Sound) {t : Task} (ht : t ∈ s.world.tasks) (a : Act) :
    t.id < (s.act a).world.nextId :=
  Nat.lt_of_lt_of_le (h.seated.ids_lt t ht) (h.nextId_act a)

/-! ### Those who have gone -/

/-- Who has gone does not come back, and nothing is added to its outcome. -/
theorem Sound.gone_act (h : s.Sound) {id : WorkId} (hid : id < s.world.nextId)
    (hgone : ∀ u ∈ s.world.tasks, u.id ≠ id) (a : Act) :
    id < (s.act a).world.nextId ∧ (∀ u ∈ (s.act a).world.tasks, u.id ≠ id) ∧
      (s.act a).world.outcomes id = s.world.outcomes id := by
  obtain ⟨W, rs, he, hleads, -⟩ := act_effect h.seated a
  obtain ⟨rs₀, hrs, -⟩ := stage_eq s a
  have hnext : (s.stage a).nextId = s.world.nextId := by rw [hrs]
  have hended : (s.stage a).ended = s.world.ended := by rw [hrs]
  refine ⟨Nat.lt_of_lt_of_le hid (h.nextId_act a), ?_, ?_⟩
  · intro u hu
    rw [hleads.alike.tasks] at hu
    rcases he.origin (h.seated.stage a) hu with ⟨t, ht, hfate⟩ | ⟨name, job, cancellation, -, rfl⟩
    · rw [hfate.id_eq]
      exact hgone t ((mem_stage a).mp ht)
    · rw [hnext]
      exact Ne.symm (Nat.ne_of_lt hid)
  · rcases he.ended with hsame | ⟨t, ht, pubs, o, -, -, hmore, -⟩
    · exact World.outcomes_congr (hleads.alike.ended.trans (hsame.trans hended)) id
    · rw [hended] at hmore
      rw [World.outcomes_more (hleads.alike.ended.trans hmore),
        if_neg (hgone t ((mem_stage a).mp ht)), List.append_nil]

theorem Sound.gone_after (h : s.Sound) {id : WorkId} (hid : id < s.world.nextId)
    (hgone : ∀ u ∈ s.world.tasks, u.id ≠ id) (acts : List Act) :
    (∀ u ∈ (s.after acts).world.tasks, u.id ≠ id) ∧
      (s.after acts).world.outcomes id = s.world.outcomes id := by
  induction acts generalizing s with
  | nil => exact ⟨hgone, rfl⟩
  | cons a acts ih =>
    obtain ⟨hid', hgone', hsame⟩ := h.gone_act hid hgone a
    obtain ⟨hgone'', hsame'⟩ := ih (h.act a) hid' hgone'
    exact ⟨hgone'', hsame'.trans hsame⟩

/-- What no act takes from a task, it still has later. -/
theorem Sound.task_induction {P : Task → Prop} (h : s.Sound) {t : Task} (ht : t ∈ s.world.tasks)
    (hP : P t) (hstep : ∀ {w W a x x'}, Fate w W a x (some x') → P x → P x') {acts : List Act}
    {u : Task} (hu : u ∈ (s.after acts).world.tasks) (hid : u.id = t.id) : P u := by
  induction acts generalizing s t with
  | nil => exact h.seated.task_unique ht hu hid.symm ▸ hP
  | cons a acts ih =>
    have hgone : (∀ x ∈ (s.act a).world.tasks, x.id ≠ t.id) → False := fun hgone =>
      ((h.act a).gone_after (h.lt_nextId ht a) hgone acts).1 u hu hid
    cases h.leaving ht a with
    | stays t' W hfate hW ht' ho =>
      exact ih (h.act a) ht' (hstep hfate hP) hu (hid.trans hfate.id_eq.symm)
    | leaves pubs o ha hd hl hleft ho => exact (hgone hleft).elim
    | cleared ha hd hleft ho => exact (hgone hleft).elim

/-- A task has come to its outcome by the turn in which it left. -/
theorem Sound.left_at (h : s.Sound) {t : Task} (ht : t ∈ s.world.tasks) {acts : List Act}
    {o : Outcome} (ho : (s.after acts).world.outcomes t.id = [o]) : ∃ earlier later u pubs,
      acts = earlier ++ .move (.task t.id) :: later ∧ u ∈ (s.after earlier).world.tasks ∧
      u.id = t.id ∧ u.job = t.job ∧
      Leaves ((s.after earlier).stage (.move (.task t.id))) u pubs (some o) := by
  induction acts generalizing s t with
  | nil =>
    rw [after_nil, h.outcomes_of_mem ht] at ho
    cases ho
  | cons a acts ih =>
    rw [after_cons] at ho
    have hgone : (∀ u ∈ (s.act a).world.tasks, u.id ≠ t.id) →
        (s.act a).world.outcomes t.id = [o] := fun hgone =>
      ((h.act a).gone_after (h.lt_nextId ht a) hgone acts).2.symm.trans ho
    cases h.leaving ht a with
    | cleared ha hd hleft hnone =>
      have hsome := hgone hleft
      rw [hnone] at hsome
      cases hsome
    | leaves pubs o' ha hd hl hleft ho' =>
      have hsome := hgone hleft
      rw [ho'] at hsome
      obtain rfl := Option.toList_eq_singleton_iff.mp hsome
      subst ha
      exact ⟨[], acts, t, pubs, rfl, ht, rfl, rfl, hl⟩
    | stays u W hfate hW hu hnone =>
      have hid := hfate.id_eq
      rw [← hid] at ho
      obtain ⟨earlier, later, x, pubs, hsplit, hx, hxid, hxjob, hl⟩ := ih (h.act a) hu ho
      rw [hid] at hsplit hl
      exact ⟨a :: earlier, later, x, pubs, by rw [hsplit]; rfl, hx, hxid.trans hid,
        hxjob.trans hfate.job_eq.2, hl⟩

end Scene

end Roaming.Simulation
