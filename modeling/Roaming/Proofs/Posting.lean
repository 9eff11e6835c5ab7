import Roaming.Proofs.Turns

/-!
# One POST for each request

A request in async mode hands out its POST when its listener is registered, and not before; it hands
out no other, and none if there is no listener. The POST carries the request to the peer of the
caller.
-/

set_option autoImplicit false
set_option relaxedAutoImplicit false

namespace Roaming.Simulation

/-- How a request in async mode hands out its POST in the course of acts. -/
structure Scene.PostsOnce (s : Scene) (t : Task) (e : Errand) (route : AnswerRoute Medium)
    (acts : List Act) : Prop where
  /-- A POST is there only since the task went on with its listener registered on its key, and there
  was none before. -/
  afterArmed : ∀ c ∈ (s.after acts).world.couriers, c.waiter = t.id →
    c.Serves t.id e ∧ ∃ earlier later u sub, acts = earlier ++ .move (.task t.id) :: later ∧
      u ∈ (s.after earlier).world.tasks ∧ u.id = t.id ∧ u.stage = .armed route sub ∧
      sub.IsOn route.medium e.key ∧ (s.after earlier).world.NoCourier t.id
  /-- Once the task has gone on with its listener registered, there is one POST. -/
  once : ∀ earlier later u sub, acts = earlier ++ .move (.task t.id) :: later →
    u ∈ (s.after earlier).world.tasks → u.id = t.id → u.stage = .armed route sub →
    ∃ c ∈ (s.after acts).world.couriers, c.Serves t.id e ∧
      ∀ d ∈ (s.after acts).world.couriers, d.waiter = t.id → d = c
  /-- Where no listener can be registered there is no POST. -/
  refused : ∀ name script f, route.medium = .puppet name script → script.failure = some f →
    (s.after acts).world.NoCourier t.id ∧
      ((s.after acts).world.outcomes t.id = [] ∨
        (s.after acts).world.outcomes t.id = [t.job.outcome (.error f)])

namespace Scene

variable {s : Scene}

/-! ### POSTs through acts -/

theorem Sound.courier_unique (h : s.Sound) {c d : Courier} (hc : c ∈ s.world.couriers)
    (hd : d ∈ s.world.couriers) (hw : c.waiter = d.waiter) : c = d := by
  have hfind := World.find?_of_nodup Courier.waiter h.tidy.waiters hc
  rw [hw, World.find?_of_nodup Courier.waiter h.tidy.waiters hd] at hfind
  exact (Option.some.inj hfind).symm

/-- A POST that was handed out is still there, for the same task and with the same body. -/
theorem Sound.courier_act (h : s.Sound) {c : Courier} (hc : c ∈ s.world.couriers) (a : Act) :
    ∃ d ∈ (s.act a).world.couriers, d.id = c.id ∧ ∀ id e, c.Serves id e → d.Serves id e := by
  rcases h.courier_fate hc a with ⟨hc', -⟩ | ⟨-, hc'⟩
  · exact ⟨c, hc', rfl, fun _ _ hserves => hserves⟩
  · obtain ⟨hpeer, hbody⟩ := World.peer_advanced c.post s.world
    exact ⟨_, hc', rfl, fun _ _ hserves =>
      ⟨hserves.waiter, hpeer.trans hserves.peer, hbody.trans hserves.body⟩⟩

theorem Sound.courier_after (h : s.Sound) {c : Courier} (hc : c ∈ s.world.couriers)
    (acts : List Act) : ∃ d ∈ (s.after acts).world.couriers, d.id = c.id ∧
      ∀ id e, c.Serves id e → d.Serves id e := by
  induction acts generalizing s c with
  | nil => exact ⟨c, hc, rfl, fun _ _ hserves => hserves⟩
  | cons a acts ih =>
    obtain ⟨d, hd, hid, hserves⟩ := h.courier_act hc a
    obtain ⟨d', hd', hid', hserves'⟩ := ih (h.act a) hd
    exact ⟨d', hd', hid'.trans hid, fun id e hc => hserves' id e (hserves id e hc)⟩

/-- A POST is new only if a task hands it out: one with its listener registered, or one that
needs no listener. -/
theorem Sound.courier_new (h : s.Sound) {a : Act} {id : WorkId} (hnone : s.world.NoCourier id)
    {c : Courier} (hc : c ∈ (s.act a).world.couriers) (hw : c.waiter = id) :
    a = .move (.task id) ∧ ∃ t ∈ s.world.tasks, t.id = id ∧ ∃ e, t.job.errand? = some e ∧
      c.Serves id e ∧ ((∃ route sub, t.stage = .armed route sub) ∨ e.caller.answers = none) := by
  obtain ⟨W, rs, he, hleads, -⟩ := act_effect h.seated a
  obtain ⟨rs₀, hrs, -⟩ := stage_eq s a
  rw [hleads.alike.couriers] at hc
  rcases he.courier_origin hc with ⟨d, hd, -, hwaiter, -, -⟩ |
    ⟨t, ht, stage, isBusy, peer, body, alarm, ha, hm, rfl⟩
  · rw [hrs] at hd
    exact absurd (hwaiter.symm.trans hw) (hnone d hd)
  · have hid : t.id = id := hw
    subst hid
    refine ⟨ha, t, (mem_stage a).mp ht, rfl, ?_⟩
    cases hm with
    | asks e hst he hroute => exact ⟨e, he, ⟨rfl, rfl, rfl⟩, .inr hroute⟩
    | launches e route sub v hst he hv => exact ⟨e, he, ⟨rfl, rfl, rfl⟩, .inl ⟨route, sub, hst⟩⟩

/-! ### Tasks through acts -/

theorem Sound.job_act (h : s.Sound) {t : Task} (ht : t ∈ s.world.tasks) (a : Act) :
    ∀ u ∈ (s.act a).world.tasks, u.id = t.id → u.job = t.job := by
  intro u hu hid
  cases h.leaving ht a with
  | stays t' W hfate hW ht' ho =>
    have hsame := (h.act a).seated.task_unique hu ht' (hid.trans hfate.id_eq.symm)
    subst hsame
    exact hfate.job_eq.2
  | leaves pubs o ha hd hl hgone ho => exact absurd hid (hgone u hu)
  | cleared ha hd hgone ho => exact absurd hid (hgone u hu)

/-- A task keeps its job. -/
theorem Sound.job_kept (h : s.Sound) {id : WorkId} {job : Job} (hid : id < s.world.nextId)
    (hjob : ∀ t ∈ s.world.tasks, t.id = id → t.job = job) (a : Act) :
    ∀ u ∈ (s.act a).world.tasks, u.id = id → u.job = job := by
  by_cases hthere : ∃ t ∈ s.world.tasks, t.id = id
  · obtain ⟨t, ht, rfl⟩ := hthere
    intro u hu huid
    rw [h.job_act ht a u hu huid]
    exact hjob t ht rfl
  · intro u hu huid
    obtain ⟨-, hgone, -⟩ := h.gone_act hid (fun t ht htid => hthere ⟨t, ht, htid⟩) a
    exact absurd huid (hgone u hu)

theorem Sound.job_after (h : s.Sound) {t : Task} (ht : t ∈ s.world.tasks) (acts : List Act) :
    ∀ u ∈ (s.after acts).world.tasks, u.id = t.id → u.job = t.job := by
  have hrun : ∀ acts, (s.after acts).Sound ∧ t.id < (s.after acts).world.nextId ∧
      ∀ u ∈ (s.after acts).world.tasks, u.id = t.id → u.job = t.job := by
    refine after_induction (P := fun s => s.Sound ∧ t.id < s.world.nextId ∧
      ∀ u ∈ s.world.tasks, u.id = t.id → u.job = t.job) ⟨h, h.seated.ids_lt t ht, ?_⟩ ?_
    · intro u hu hid
      rw [h.seated.task_unique hu ht hid]
    · rintro s' a ⟨h', hid, hjob⟩
      exact ⟨h'.act a, Nat.lt_of_lt_of_le hid (h'.nextId_act a), h'.job_kept hid hjob a⟩
  exact (hrun acts).2.2

/-- The listener of a task is on the key of its exchange. -/
theorem Sound.key_of_listener (h : s.Sound) {u : Task} (hu : u ∈ s.world.tasks) {e : Errand}
    (he : u.job.errand? = some e) {sub : Subscription} (hsub : u.subscription? = some sub) :
    sub.key = e.key := by
  have hplace := h.tidy.inPlace u hu
  rw [Task.InPlace] at hplace
  rw [Task.subscription?] at hsub
  cases hst : u.stage with
  | subscribing route i call listener =>
    simp only [hst, he, Option.map_some, Option.some.injEq] at hsub
    rw [← hsub]
    rfl
  | armed route sub' =>
    simp only [hst] at hplace hsub
    cases hsub
    obtain ⟨-, -, e', he', -, hon⟩ := hplace
    cases he.symm.trans he'
    exact hon.1
  | watching v =>
    simp only [hst] at hplace hsub
    cases hsub
    obtain ⟨-, e', route, he', hfor, -⟩ := hplace
    cases he.symm.trans he'
    exact hfor.isOn.1
  | fresh => simp [hst] at hsub
  | awaiting courier => simp [hst] at hsub
  | pushing p => simp [hst] at hsub

/-- The listener with which a task is armed is on the key of its exchange, and it has handed out no
POST. -/
private theorem Sound.armed_on (h : s.Sound) {t : Task} (ht : t ∈ s.world.tasks) {e : Errand}
    {route : AnswerRoute Medium} (he : t.job.errand? = some e)
    (hroute : e.caller.answers = some route)
    {route' : AnswerRoute Medium} {sub : Subscription} (hst : t.stage = .armed route' sub) :
    route' = route ∧ sub.IsOn route.medium e.key ∧ s.world.NoCourier t.id := by
  have hplace := h.tidy.inPlace t ht
  rw [Task.InPlace, hst] at hplace
  obtain ⟨hnone, -, e', he', hroute', hon⟩ := hplace
  obtain ⟨rfl, rfl⟩ := Job.route_unique he hroute he' hroute'
  exact ⟨rfl, hon, hnone⟩

/-! ### Where no listener can be registered -/

/-- Whether a task with no way to a listener has not begun, or has ended with this failure. -/
private def IsRefused (s : Scene) (id : WorkId) (job : Job) (f : Failure) : Prop :=
  (∃ t ∈ s.world.tasks, t.id = id ∧ t.job = job ∧ t.stage = .fresh) ∨
    ((∀ u ∈ s.world.tasks, u.id ≠ id) ∧
      (s.world.outcomes id = [] ∨ s.world.outcomes id = [job.outcome (.error f)]))

private theorem Sound.noCourier_act (h : s.Sound) {id : WorkId} {job : Job} {f : Failure}
    (hrefused : s.IsRefused id job f) (hroute : ∀ e, job.errand? = some e → e.caller.answers ≠ none)
    (hnone : s.world.NoCourier id) (a : Act) : (s.act a).world.NoCourier id := by
  intro c hc hw
  obtain ⟨-, t, ht, htid, e, he, -, hcan⟩ := h.courier_new hnone hc hw
  rcases hrefused with ⟨t', ht', htid', hjob, hst⟩ | ⟨hgone, -⟩
  · have hsame := h.seated.task_unique ht ht' (htid.trans htid'.symm)
    subst hsame
    rcases hcan with ⟨route, sub, harmed⟩ | hsync
    · rw [hst] at harmed
      cases harmed
    · exact hroute e (hjob ▸ he) hsync
  · exact hgone t ht htid

section Refused

variable {w : World} {t : Task} {e : Errand} {route : AnswerRoute Medium} {name : String}
  {script : Puppet} {f : Failure}

private theorem leaves_refused {pubs : List Publication} {o : Option Outcome}
    (h : Leaves w t pubs o) (hst : t.stage = .fresh) (he : t.job.errand? = some e)
    (hroute : e.caller.answers = some route)
    (hmedium : route.medium = .puppet name script) (hf : script.failure = some f) :
    o = some (t.job.outcome (.error f)) := by
  cases h with
  | unarmed e' route' name' script' f' hst' he' hroute' hmedium' hf' =>
    obtain ⟨rfl, rfl⟩ := Job.route_unique he hroute he' hroute'
    rw [hmedium] at hmedium'
    cases hmedium'
    rw [hf] at hf'
    cases hf'
    rfl
  | refused refusal hst' hjob => rw [hjob] at he; cases he
  | pushed actor op answer p ending hjob hp hend => rw [hjob] at he; cases he
  | unconfirmed e' route' i call listener f' hst' he' ho' => rw [hst] at hst'; cases hst'
  | decided v r hst' hpoll => rw [hst] at hst'; cases hst'
  | answered e' courier r hst' he' hr => rw [hst] at hst'; cases hst'

private theorem moves_refused {stage : Stage} {isBusy : Bool} {gain : Gain}
    (h : Moves w t stage isBusy gain) (hst : t.stage = .fresh) (he : t.job.errand? = some e)
    (hroute : e.caller.answers = some route) (hmedium : route.medium = .puppet name script)
    (hf : script.failure = some f) : stage = .fresh := by
  have hsame : ∀ {e' : Errand} {route' : AnswerRoute Medium}, t.job.errand? = some e' →
      e'.caller.answers = some route' → route'.medium = .puppet name script := by
    intro e' route' he' hroute'
    rw [(Job.route_unique he hroute he' hroute').2, hmedium]
  cases h with
  | waits hw => exact hst
  | asks e' hst' he' hroute' =>
    rw [he] at he'
    cases he'
    rw [hroute] at hroute'
    cases hroute'
  | enlists e' route' name' hst' he' hroute' hmedium' =>
    rw [hsame he' hroute'] at hmedium'
    cases hmedium'
  | feigns e' route' name' script' hst' he' hroute' hmedium' hok =>
    rw [hsame he' hroute'] at hmedium'
    cases hmedium'
    rw [hf] at hok
    cases hok
  | calls e' route' i st hst' he' hroute' hmedium' hs =>
    rw [hsame he' hroute'] at hmedium'
    cases hmedium'
  | pushes p busy hp hnone => rw [Task.push?_of_errand he] at hp; cases hp
  | confirms e' route' i call listener hst' he' ho' => rw [hst] at hst'; cases hst'
  | launches e' route' sub v hst' he' hv => rw [hst] at hst'; cases hst'
  | looks v hst' hpoll => rw [hst] at hst'; cases hst'

private theorem Sound.refused_act (h : s.Sound) {id : WorkId} {job : Job}
    (hid : id < s.world.nextId) (he : job.errand? = some e) (hroute : e.caller.answers = some route)
    (hmedium : route.medium = .puppet name script) (hf : script.failure = some f)
    (hrefused : s.IsRefused id job f) (a : Act) : (s.act a).IsRefused id job f := by
  rcases hrefused with ⟨t, ht, rfl, rfl, hst⟩ | ⟨hgone, ho⟩
  · cases h.leaving ht a with
    | cleared ha hd hgone ho => exact .inr ⟨hgone, .inl ho⟩
    | leaves pubs o ha hd hl hgone ho =>
      refine .inr ⟨hgone, .inr ?_⟩
      rw [ho, leaves_refused hl hst he hroute hmedium hf]
      rfl
    | stays t' W hfate hW ht' ho =>
      refine .inl ⟨t', ht', hfate.id_eq, hfate.job_eq.2, ?_⟩
      cases hfate with
      | kept hne => exact hst
      | cancelled ha => exact hst
      | dropped ha => exact hst
      | still ha hd hidle hW' => exact hst
      | moved ha hd stage isBusy gain hm hW' => exact moves_refused hm hst he hroute hmedium hf
  · obtain ⟨-, hgone', hsame⟩ := h.gone_act hid hgone a
    exact .inr ⟨hgone', hsame ▸ ho⟩

end Refused

/-! ### The run of a request -/

private theorem Sound.posts_after_armed (h : s.Sound) {id : WorkId} {job : Job} {e : Errand}
    {route : AnswerRoute Medium} (hid : id < s.world.nextId)
    (hjob : ∀ t ∈ s.world.tasks, t.id = id → t.job = job) (he : job.errand? = some e)
    (hroute : e.caller.answers = some route) (hnone : s.world.NoCourier id) (acts : List Act)
    {c : Courier} (hc : c ∈ (s.after acts).world.couriers) (hw : c.waiter = id) :
    c.Serves id e ∧ ∃ earlier later u sub, acts = earlier ++ .move (.task id) :: later ∧
      u ∈ (s.after earlier).world.tasks ∧ u.id = id ∧ u.stage = .armed route sub ∧
      sub.IsOn route.medium e.key ∧ (s.after earlier).world.NoCourier id := by
  induction acts generalizing s with
  | nil => exact absurd hw (hnone c hc)
  | cons a acts ih =>
    by_cases hnone' : (s.act a).world.NoCourier id
    · obtain ⟨hserves, earlier, later, u, sub, rfl, hu⟩ := ih (h.act a)
        (Nat.lt_of_lt_of_le hid (h.nextId_act a)) (h.job_kept hid hjob a) hnone' hc
      exact ⟨hserves, a :: earlier, later, u, sub, rfl, hu⟩
    · unfold World.NoCourier at hnone'
      push Not at hnone'
      obtain ⟨d, hd, hdw⟩ := hnone'
      obtain ⟨ha, t, ht, htid, e', he', hserves, hcan⟩ := h.courier_new hnone hd hdw
      rw [hjob t ht htid, he] at he'
      cases he'
      rcases hcan with ⟨route', sub, hst⟩ | hsync
      · obtain ⟨rfl, hon, hnone''⟩ := h.armed_on ht (hjob t ht htid ▸ he) hroute hst
        obtain ⟨d', hd', -, hlater⟩ := (h.act a).courier_after hd acts
        have hserves' := hlater id e hserves
        have hsame := ((h.act a).after acts).courier_unique hc hd' (hw.trans hserves'.waiter.symm)
        subst hsame
        exact ⟨hserves', [], acts, t, sub, by rw [ha]; rfl, ht, htid, hst, hon, htid ▸ hnone''⟩
      · rw [hroute] at hsync
        cases hsync

/-- Every request in async mode hands out its POST as it should. -/
theorem Sound.postsOnce (h : s.Sound) {t : Task} (ht : t ∈ s.world.tasks) (hst : t.stage = .fresh)
    {e : Errand} {route : AnswerRoute Medium} (he : t.job.errand? = some e)
    (hroute : e.caller.answers = some route) (acts : List Act) : s.PostsOnce t e route acts where
  afterArmed c hc hw := by
    have hplace := h.tidy.inPlace t ht
    rw [Task.InPlace, hst] at hplace
    refine h.posts_after_armed (h.seated.ids_lt t ht) (fun u hu hid => ?_) he hroute hplace
      acts hc hw
    rw [h.seated.task_unique hu ht hid]
  once earlier later u sub hacts hu hid harmed := by
    have hearlier := h.after earlier
    have hjob : u.job = t.job := h.job_after ht earlier u hu hid
    obtain ⟨c, hc, -, hlater⟩ := (hearlier.act _).courier_after
      (hearlier.launches hu harmed (hjob ▸ he)).2 later
    have hserves := hlater u.id e ⟨rfl, rfl, rfl⟩
    rw [hid] at hc hserves
    rw [hacts, after_append, after_cons]
    refine ⟨c, hc, hserves, fun d hd hw => ?_⟩
    exact ((hearlier.act _).after later).courier_unique hd hc (hw.trans hserves.waiter.symm)
  refused name script f hmedium hf := by
    have hplace := h.tidy.inPlace t ht
    rw [Task.InPlace, hst] at hplace
    have hrun : ∀ acts, (s.after acts).Sound ∧ t.id < (s.after acts).world.nextId ∧
        (s.after acts).IsRefused t.id t.job f ∧ (s.after acts).world.NoCourier t.id := by
      refine after_induction (P := fun s => s.Sound ∧ t.id < s.world.nextId ∧
        s.IsRefused t.id t.job f ∧ s.world.NoCourier t.id)
        ⟨h, h.seated.ids_lt t ht, .inl ⟨t, ht, rfl, rfl, hst⟩, hplace⟩ ?_
      rintro s' a ⟨h', hid, hrefused, hnone⟩
      refine ⟨h'.act a, Nat.lt_of_lt_of_le hid (h'.nextId_act a),
        h'.refused_act hid he hroute hmedium hf hrefused a, ?_⟩
      refine h'.noCourier_act hrefused (fun e' he' hsync => ?_) hnone a
      rw [he] at he'
      cases he'
      rw [hroute] at hsync
      cases hsync
    obtain ⟨hsound, -, hrefused, hnone⟩ := hrun acts
    refine ⟨hnone, ?_⟩
    rcases hrefused with ⟨u, hu, hid, -, -⟩ | ⟨-, ho⟩
    · left
      rw [← hid]
      exact hsound.outcomes_of_mem hu
    · exact ho

end Scene

end Roaming.Simulation
