import Roaming.Proofs.Outcomes
import Roaming.Proofs.Posting

/-!
# No lost answer

A request over the hub is registered on its key before its POST goes out. From then on the first
payload that is published on the key is kept in its inbox until it looks, whatever happens
meanwhile, and it ends with this payload.
-/

set_option autoImplicit false
set_option relaxedAutoImplicit false

namespace Roaming.Simulation

open Roaming.Text (Bytes)

/-- Whether a task listens on a key of the hub, where these payloads were published since. -/
def Scene.Listens (s : Scene) (t : Task) (key : Key) (payloads : List Bytes) : Prop :=
  ∃ u ∈ s.world.tasks, u.id = t.id ∧ ∃ l, u.subscription? = some (.hub key l) ∧
    l ∈ s.world.hub.registry.on key ∧ s.world.hub.inbox l = payloads.take Inbox.capacity

/-- Whether a payload is what a task sees when it looks into its inbox on the hub. -/
def Scene.Keeps (s : Scene) (t : Task) (p : Bytes) : Prop :=
  ∃ u ∈ s.world.tasks, u.id = t.id ∧ u.job = t.job ∧ ∃ key l, u.subscription? = some (.hub key l) ∧
    s.world.hub.sight l = .message p

/-- What becomes of a payload that a task has in its inbox. -/
inductive Scene.Delivers (s : Scene) (t : Task) (p : Bytes) : Prop where
  | kept (h : s.Keeps t p)
  | delivered (hgone : ∀ u ∈ s.world.tasks, u.id ≠ t.id)
      (ho : s.world.outcomes t.id = [t.job.outcome (.ok p)])
  /-- The task was dropped before it looked. -/
  | dropped (hgone : ∀ u ∈ s.world.tasks, u.id ≠ t.id) (ho : s.world.outcomes t.id = [])

/-- What a request can rely on that has just been registered on its key. -/
structure Scene.KeepsFirst (s : Scene) (t : Task) (key : Key) : Prop where
  armed : s.Listens t key []
  /-- The listener gets what is published on its key, as long as there is room in its inbox. -/
  listens : ∀ acts, .close ∉ acts → (∃ u ∈ (s.after acts).world.tasks, u.id = t.id) →
    (s.after acts).Listens t key (payloadsOn key (s.published acts))
  /-- There is room for the first, and it stays. -/
  keeps : ∀ acts more p ps, .close ∉ acts → payloadsOn key (s.published acts) = p :: ps →
    (∃ u ∈ (s.after acts).world.tasks, u.id = t.id) →
    (s.after acts).Keeps t p ∧ (s.after (acts ++ more)).Delivers t p
  /-- The next look ends with it. -/
  looks : ∀ acts p, (s.after acts).Keeps t p → ∀ u ∈ (s.after acts).world.tasks, u.id = t.id →
    ∀ v, u.stage = .watching v → (u.isDropped && !u.isBusy) = false →
    ((s.after acts).act (.move (.task t.id))).world.outcomes t.id = [t.job.outcome (.ok p)]
  /-- A look is always to come. -/
  wakes : ∀ acts p, (s.after acts).Keeps t p → ¬ (s.after acts).IsQuiet

namespace Scene

variable {s : Scene}

/-! ### One act -/

private theorem Sound.listens_act (h : s.Sound) {t : Task} {key : Key} {payloads : List Bytes}
    (hl : s.Listens t key payloads) {a : Act} (ha : a ≠ .close)
    (hthere : ∃ u ∈ (s.act a).world.tasks, u.id = t.id) :
    (s.act a).Listens t key (payloads ++ payloadsOn key (s.publications a)) := by
  obtain ⟨u, hu, hid, l, hsub, hon, hinbox⟩ := hl
  obtain ⟨u', hu', hid'⟩ := hthere
  cases h.leaving hu a with
  | leaves pubs o ha' hd hl hgone ho => exact absurd (hid'.trans hid.symm) (hgone u' hu')
  | cleared ha' hd hgone ho => exact absurd (hid'.trans hid.symm) (hgone u' hu')
  | stays x W hfate hW hx ho =>
    have hheld : s.Has (.task u.id) (.hub key l) := ⟨u, hu, rfl, hsub⟩
    have hheld' : (s.act a).Has (.task u.id) (.hub key l) :=
      ⟨x, hx, hfate.id_eq, hfate.subscription_eq hsub⟩
    refine ⟨x, hx, hfate.id_eq.trans hid, l, hfate.subscription_eq hsub,
      h.seated.on_act hheld hheld' ha hon, ?_⟩
    have hlen : (payloads.take Inbox.capacity).length ≤ Inbox.capacity := List.length_take_le _ _
    rw [h.seated.inbox_act hheld hheld' (by simp), if_pos hon, hinbox, Inbox.offerAll_eq_take hlen]
    simp only [List.take_append, List.length_take, List.take_take, Nat.min_self]
    congr 2
    omega

theorem Sound.keeps_act (h : s.Sound) {t : Task} {p : Bytes} (hk : s.Keeps t p) (a : Act) :
    (s.act a).Delivers t p := by
  obtain ⟨u, hu, hid, hjob, key, l, hsub, hsight⟩ := hk
  have hheld : s.Has (.task u.id) (.hub key l) := ⟨u, hu, rfl, hsub⟩
  cases h.leaving hu a with
  | cleared ha hd hgone ho => exact .dropped (hid ▸ hgone) (hid ▸ ho)
  | stays x W hfate hW hx ho =>
    refine .kept ⟨x, hx, hfate.id_eq.trans hid, hfate.job_eq.2.trans hjob, key, l,
      hfate.subscription_eq hsub, ?_⟩
    have hprefix := h.seated.prefix_act hheld ⟨x, hx, hfate.id_eq, hfate.subscription_eq hsub⟩
      (a := a) (by simp)
    obtain ⟨rest, hinbox⟩ := Listeners.sight_eq_message.mp hsight
    obtain ⟨more, hmore⟩ := hprefix
    rw [hinbox] at hmore
    exact Listeners.sight_eq_message.mpr ⟨rest ++ more, hmore.symm⟩
  | leaves pubs o ha hd hl hgone ho =>
    refine .delivered (hid ▸ hgone) ?_
    rcases Task.stage_of_hub hsub with ⟨route, hst⟩ | ⟨v, hst, hv⟩
    · exact absurd hst hl.not_armed
    · have hends := (h.endsByVerdict hu hst).ends hd (.ok p) ((World.verdict_eq_ok hv).mpr hsight)
      rw [ha, ← hid, hends.1, hjob]

private theorem Sound.delivers_act (h : s.Sound) {t : Task} {p : Bytes}
    (hid : t.id < s.world.nextId) (hk : s.Delivers t p) (a : Act) : (s.act a).Delivers t p := by
  cases hk with
  | kept hk => exact h.keeps_act hk a
  | delivered hgone ho =>
    obtain ⟨-, hgone', hsame⟩ := h.gone_act hid hgone a
    exact .delivered hgone' (hsame.trans ho)
  | dropped hgone ho =>
    obtain ⟨-, hgone', hsame⟩ := h.gone_act hid hgone a
    exact .dropped hgone' (hsame.trans ho)

/-! ### All acts -/

theorem Sound.listens_after (h : s.Sound) {t : Task} {key : Key} {payloads : List Bytes}
    (hid : t.id < s.world.nextId) (hl : s.Listens t key payloads) {acts : List Act}
    (hclose : .close ∉ acts) (hthere : ∃ u ∈ (s.after acts).world.tasks, u.id = t.id) :
    (s.after acts).Listens t key (payloads ++ payloadsOn key (s.published acts)) := by
  induction acts generalizing s payloads with
  | nil =>
    rw [published, payloadsOn_nil, List.append_nil]
    exact hl
  | cons a acts ih =>
    have ha : a ≠ .close := fun ha => hclose (ha ▸ List.mem_cons_self)
    have hclose' : .close ∉ acts := fun hmem => hclose (List.mem_cons_of_mem _ hmem)
    have hid' : t.id < (s.act a).world.nextId := Nat.lt_of_lt_of_le hid (h.nextId_act a)
    -- Who is there in the end was there all the time.
    have hstill : ∃ u ∈ (s.act a).world.tasks, u.id = t.id := by
      by_contra hnone
      push Not at hnone
      obtain ⟨u, hu, huid⟩ := hthere
      exact ((h.act a).gone_after hid' hnone acts).1 u hu huid
    have hrest := ih (h.act a) hid' (h.listens_act hl ha hstill) hclose' hthere
    rw [published, payloadsOn_append, ← List.append_assoc]
    exact hrest

private theorem Sound.delivers_after (h : s.Sound) {t : Task} {p : Bytes}
    (hid : t.id < s.world.nextId) (hk : s.Delivers t p) (acts : List Act) :
    (s.after acts).Delivers t p := by
  induction acts generalizing s with
  | nil => exact hk
  | cons a acts ih =>
    exact ih (h.act a) (Nat.lt_of_lt_of_le hid (h.nextId_act a)) (h.delivers_act hid hk a)

theorem Sound.keeps_look (h : s.Sound) {t : Task} {p : Bytes} (hk : s.Keeps t p) {u : Task}
    (hu : u ∈ s.world.tasks) (hid : u.id = t.id) {v : Vigil} (hst : u.stage = .watching v)
    (hd : (u.isDropped && !u.isBusy) = false) :
    (s.act (.move (.task t.id))).world.outcomes t.id = [t.job.outcome (.ok p)] := by
  obtain ⟨x, hx, hxid, hjob, key, l, hsub, hsight⟩ := hk
  have hsame := h.seated.task_unique hx hu (hxid.trans hid.symm)
  subst hsame
  have hv : v.subscription = .hub key l := by
    rw [Task.subscription?, hst] at hsub
    exact Option.some.inj hsub
  have hends := (h.endsByVerdict hu hst).ends hd (.ok p) ((World.verdict_eq_ok hv).mpr hsight)
  rw [← hid, hends.1, hjob]

theorem Sound.keeps_not_quiet (h : s.Sound) {t : Task} {p : Bytes} (hk : s.Keeps t p) :
    ¬ s.IsQuiet := by
  intro hquiet
  obtain ⟨u, hu, -, -, key, l, hsub, hsight⟩ := hk
  rcases Task.stage_of_hub hsub with ⟨route, hst⟩ | ⟨v, hst, hv⟩
  · have hplace := h.tidy.inPlace u hu
    rw [Task.InPlace, hst] at hplace
    have hidle := hquiet.2 u hu
    rw [hplace.2.1] at hidle
    cases hidle
  · have hnone := h.verdict_of_quiet hquiet hu hst
    rw [(World.verdict_eq_ok hv).mpr hsight] at hnone
    cases hnone

theorem Sound.keepsFirst (h : s.Sound) {t : Task} {key : Key} (hid : t.id < s.world.nextId)
    (hjob : ∀ acts, ∀ u ∈ (s.after acts).world.tasks, u.id = t.id → u.job = t.job)
    (hl : s.Listens t key []) : s.KeepsFirst t key where
  armed := hl
  listens acts hclose hthere := h.listens_after hid hl hclose hthere
  keeps acts more p ps hclose hpub hthere := by
    obtain ⟨u, hu, huid, l, hsub, hon, hinbox⟩ := h.listens_after hid hl hclose hthere
    have hkeeps : (s.after acts).Keeps t p := by
      refine ⟨u, hu, huid, hjob acts u hu huid, key, l, hsub, Listeners.sight_eq_message.mpr ?_⟩
      rw [List.nil_append, hpub] at hinbox
      exact ⟨ps.take 3, hinbox⟩
    refine ⟨hkeeps, ?_⟩
    rw [after_append]
    have hid' : t.id < (s.after acts).world.nextId :=
      huid ▸ (h.after acts).seated.ids_lt u hu
    exact (h.after acts).delivers_after hid' (.kept hkeeps) more
  looks acts p hk u hu huid v hst hd := (h.after acts).keeps_look hk hu huid hst hd
  wakes acts p hk := (h.after acts).keeps_not_quiet hk

/-- A request in async mode hands out its POST once, after it was armed; over the hub, it is armed
on its key when it begins, and ends with the first payload that is published there, unless it has
ended before or is dropped. -/
theorem one_post_and_no_lost_answer (hs : s.IsOpening) (before : List Act) {t : Task} {e : Errand}
    {route : AnswerRoute Medium} (ht : t ∈ (s.after before).world.tasks) (hst : t.stage = .fresh)
    (he : t.job.errand? = some e) (hroute : e.caller.answers = some route) :
    (∀ acts, (s.after before).PostsOnce t e route acts) ∧
      ∀ name, route.medium = .hub name → (t.isDropped && !t.isBusy) = false →
        ((s.after before).act (.move (.task t.id))).KeepsFirst t e.key := by
  have hsound := hs.sound_after before
  refine ⟨hsound.postsOnce ht hst he hroute, fun name hmedium hd => ?_⟩
  obtain ⟨l, ht', hon, hinbox⟩ := hsound.begins_on_hub ht hst he hroute hmedium hd
  refine (hsound.act _).keepsFirst (hsound.lt_nextId ht _) (fun acts u hu hid => ?_)
    ⟨_, ht', rfl, l, rfl, hon, hinbox⟩
  exact hsound.job_after ht (.move (.task t.id) :: acts) u hu hid

/-- An answer that comes before the POST is handed out, and is read after the hub was closed. -/
theorem answer_before_post_is_delivered :
    (((opening [silentPeer]).act (.start "t0" firstJob .never)).act (.move (.task 0))
      |>.after ([.publish "k" [7]] ++ [.move (.task 0), .close, .move (.task 0)])).Delivers
        { id := 0, name := "t0", job := firstJob } [7] := by
  have hkeeps := (one_post_and_no_lost_answer (opening_isOpening [silentPeer])
    [.start "t0" firstJob .never] (List.mem_singleton_self _) rfl rfl rfl).2 "x0" rfl rfl
  exact (hkeeps.keeps [.publish "k" [7]] _ [7] [] (by simp) rfl
    ⟨_, List.mem_singleton_self _, rfl⟩).2

end Scene

end Roaming.Simulation
