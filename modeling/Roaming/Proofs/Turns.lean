import Roaming.Proofs.Inboxes

/-!
# The first pieces of a turn

A request over the hub is registered on its key by the first piece of its turn; a request that is
registered hands out its POST by the next, and watches from then on.
-/

set_option autoImplicit false
set_option relaxedAutoImplicit false

namespace Roaming.Simulation

theorem Job.route_unique {job : Job} {e e' : Errand} {route route' : AnswerRoute Medium}
    (he : job.errand? = some e) (hroute : e.caller.answers = some route)
    (he' : job.errand? = some e') (hroute' : e'.caller.answers = some route') :
    e' = e ∧ route' = route := by
  have hsame : e' = e := Option.some.inj (he'.symm.trans he)
  subst hsame
  exact ⟨rfl, Option.some.inj (hroute'.symm.trans hroute)⟩

/-- An armed task goes on by handing out its POST. -/
theorem Moves.of_armed {w : World} {t : Task} {stage : Stage} {isBusy : Bool} {gain : Gain}
    (h : Moves w t stage isBusy gain) {route : AnswerRoute Medium} {sub : Subscription}
    (hst : t.stage = .armed route sub) {e : Errand} (he : t.job.errand? = some e) :
    stage = .watching ⟨⟨e.key, route.timeout, route.policy, true⟩, sub, w.now, w.nextId⟩ ∧
      isBusy = true ∧ ∃ due, gain = .courier e.caller.peer e.body (some due) := by
  cases h with
  | launches e' route' sub' v hst' he' hv =>
    rw [he] at he'
    cases he'
    rw [hst] at hst'
    cases hst'
    exact ⟨by rw [hv], rfl, _, rfl⟩
  | waits hw => rw [Task.IsWaiting, hst] at hw; exact hw.elim
  | pushes p busy hp hnone => rw [Task.push?_of_errand he] at hp; cases hp
  | asks e' hst' he' hroute => rw [hst] at hst'; cases hst'
  | enlists e' route' name hst' he' hroute hmedium => rw [hst] at hst'; cases hst'
  | feigns e' route' name script hst' he' hroute hmedium hok => rw [hst] at hst'; cases hst'
  | calls e' route' i st hst' he' hroute hmedium hs => rw [hst] at hst'; cases hst'
  | confirms e' route' i call listener hst' he' ho' => rw [hst] at hst'; cases hst'
  | looks v hst' hpoll => rw [hst] at hst'; cases hst'

/-- An armed task does not leave. -/
theorem Leaves.not_armed {w : World} {t : Task} {pubs : List Publication} {o : Option Outcome}
    (h : Leaves w t pubs o) {route : AnswerRoute Medium} {sub : Subscription} :
    t.stage ≠ .armed route sub := by
  intro hst
  cases h with
  | pushed actor op answer p ending hjob hp hend => simp [Task.push?, hst] at hp
  | refused refusal hst' hjob => rw [hst] at hst'; cases hst'
  | unarmed e' route' name script f hst' he' hroute hmedium hf => rw [hst] at hst'; cases hst'
  | unconfirmed e' route' i call listener f hst' he' ho' => rw [hst] at hst'; cases hst'
  | decided v r hst' hpoll => rw [hst] at hst'; cases hst'
  | answered e' courier r hst' he' hr => rw [hst] at hst'; cases hst'

/-- A request over the hub begins with its listener. -/
theorem Moves.of_fresh {w : World} {t : Task} {stage : Stage} {isBusy : Bool} {gain : Gain}
    (h : Moves w t stage isBusy gain) (hst : t.stage = .fresh) {e : Errand}
    {route : AnswerRoute Medium} {name : String} (he : t.job.errand? = some e)
    (hroute : e.caller.answers = some route) (hmedium : route.medium = .hub name) :
    stage = .armed route (.hub e.key w.hub.next) ∧ isBusy = true ∧ gain = .listener none e.key := by
  cases h with
  | enlists e' route' name' hst' he' hroute' hmedium' =>
    obtain ⟨rfl, rfl⟩ := Job.route_unique he hroute he' hroute'
    exact ⟨rfl, rfl, rfl⟩
  | waits hw => rw [Task.IsWaiting, hst] at hw; exact hw.elim
  | pushes p busy hp hnone => rw [Task.push?_of_errand he] at hp; cases hp
  | asks e' hst' he' hroute' =>
    rw [he] at he'
    cases he'
    rw [hroute] at hroute'
    cases hroute'
  | feigns e' route' name' script hst' he' hroute' hmedium' hok =>
    rw [(Job.route_unique he hroute he' hroute').2, hmedium] at hmedium'
    cases hmedium'
  | calls e' route' i st hst' he' hroute' hmedium' hs =>
    rw [(Job.route_unique he hroute he' hroute').2, hmedium] at hmedium'
    cases hmedium'
  | confirms e' route' i call listener hst' he' ho' => rw [hst] at hst'; cases hst'
  | launches e' route' sub v hst' he' hv => rw [hst] at hst'; cases hst'
  | looks v hst' hpoll => rw [hst] at hst'; cases hst'

/-- A request over the hub does not leave before it has begun. -/
theorem Leaves.not_fresh {w : World} {t : Task} {pubs : List Publication} {o : Option Outcome}
    (h : Leaves w t pubs o) {e : Errand} {route : AnswerRoute Medium} {name : String}
    (he : t.job.errand? = some e) (hroute : e.caller.answers = some route)
    (hmedium : route.medium = .hub name) : t.stage ≠ .fresh := by
  intro hst
  cases h with
  | refused refusal hst' hjob => rw [hjob] at he; cases he
  | unarmed e' route' name' script f hst' he' hroute' hmedium' hf =>
    rw [(Job.route_unique he hroute he' hroute').2, hmedium] at hmedium'
    cases hmedium'
  | pushed actor op answer p ending hjob hp hend => rw [Task.push?_of_errand he] at hp; cases hp
  | unconfirmed e' route' i call listener f hst' he' ho' => rw [hst] at hst'; cases hst'
  | decided v r hst' hpoll => rw [hst] at hst'; cases hst'
  | answered e' courier r hst' he' hr => rw [hst] at hst'; cases hst'

namespace Scene

variable {s : Scene}

/-- A task that exchanges publishes nothing itself. -/
theorem Sound.publications_own (h : s.Sound) {t : Task} (ht : t ∈ s.world.tasks) {e : Errand}
    (he : t.job.errand? = some e) : s.publications (.move (.task t.id)) = [] := by
  have hpush := Task.push?_of_errand he
  simp only [publications, h.seated.task?_eq ht, hpush]
  split <;> rfl

/-- An armed task is in the middle of its turn. -/
theorem Sound.armed_busy (h : s.Sound) {t : Task} (ht : t ∈ s.world.tasks)
    {route : AnswerRoute Medium} {sub : Subscription} (hst : t.stage = .armed route sub) :
    t.isBusy = true ∧ (t.isDropped && !t.isBusy) = false := by
  have hplace := h.tidy.inPlace t ht
  rw [Task.InPlace, hst] at hplace
  refine ⟨hplace.2.1, ?_⟩
  rw [hplace.2.1, Bool.not_true, Bool.and_false]

/-- An armed task hands out its POST and watches. -/
theorem Sound.launches (h : s.Sound) {t : Task} (ht : t ∈ s.world.tasks)
    {route : AnswerRoute Medium} {sub : Subscription} (hst : t.stage = .armed route sub)
    {e : Errand} (he : t.job.errand? = some e) :
    { t with
      stage := .watching ⟨⟨e.key, route.timeout, route.policy, true⟩, sub, s.world.now,
        s.world.nextId⟩
      isBusy := true } ∈ (s.act (.move (.task t.id))).world.tasks ∧
    ⟨s.world.nextId, t.id, { peer := e.caller.peer, body := e.body }⟩ ∈
      (s.act (.move (.task t.id))).world.couriers := by
  obtain ⟨rs, hrs, -⟩ := stage_eq s (.move (.task t.id))
  have hd := (h.armed_busy ht hst).2
  cases h.leaving ht (.move (.task t.id)) with
  | cleared ha hd' hgone ho => rw [hd] at hd'; cases hd'
  | leaves pubs o ha hd' hl hgone ho => exact absurd hst hl.not_armed
  | stays t' W hfate hW ht' ho =>
    rcases hfate.of_turn.2 with ⟨hidle, -⟩ | ⟨stage, isBusy, gain, hm, rfl, hW'⟩
    · simp [Task.IsIdle, hst, he] at hidle
    · obtain ⟨rfl, rfl, due, rfl⟩ := hm.of_armed hst he
      have hnow : (s.stage (.move (.task t.id))).now = s.world.now := by rw [hrs]
      have hnext : (s.stage (.move (.task t.id))).nextId = s.world.nextId := by rw [hrs]
      rw [hnow, hnext] at ht'
      refine ⟨ht', ?_⟩
      rw [hW.couriers, hW', ← hnext]
      exact List.mem_append_right _ (List.mem_singleton_self _)

/-- A request over the hub is the next listener of the hub when it begins. -/
theorem Sound.registers (h : s.Sound) {t : Task} (ht : t ∈ s.world.tasks) (hst : t.stage = .fresh)
    {e : Errand} {route : AnswerRoute Medium} {name : String} (he : t.job.errand? = some e)
    (hroute : e.caller.answers = some route) (hmedium : route.medium = .hub name)
    (hd : (t.isDropped && !t.isBusy) = false) :
    { t with stage := .armed route (.hub e.key s.world.hub.next), isBusy := true } ∈
        (s.act (.move (.task t.id))).world.tasks ∧
      (s.act (.move (.task t.id))).world.hub = s.world.hub.add e.key := by
  obtain ⟨rs, hrs, -⟩ := stage_eq s (.move (.task t.id))
  cases h.leaving ht (.move (.task t.id)) with
  | cleared ha hd' hgone ho => rw [hd] at hd'; cases hd'
  | leaves pubs o ha hd' hl hgone ho => exact absurd hst (hl.not_fresh he hroute hmedium)
  | stays t' W hfate hW ht' ho =>
    rcases hfate.of_turn.2 with ⟨hidle, -⟩ | ⟨stage, isBusy, gain, hm, rfl, hW'⟩
    · simp only [Task.IsIdle, hst, he] at hidle
      obtain ⟨route', i, hroute', hlink, -⟩ := hidle
      rw [hroute] at hroute'
      cases hroute'
      rw [hmedium] at hlink
      cases hlink
    · obtain ⟨rfl, rfl, rfl⟩ := hm.of_fresh hst he hroute hmedium
      have hnext : (s.stage (.move (.task t.id))).hub.next = s.world.hub.next := by rw [hrs]
      rw [hnext] at ht'
      refine ⟨ht', ?_⟩
      rw [hW.hub, hW', hrs]
      rfl

/-- It is then on its key, and its inbox is empty. -/
theorem Sound.begins_on_hub (h : s.Sound) {t : Task} (ht : t ∈ s.world.tasks)
    (hst : t.stage = .fresh) {e : Errand} {route : AnswerRoute Medium} {name : String}
    (he : t.job.errand? = some e) (hroute : e.caller.answers = some route)
    (hmedium : route.medium = .hub name) (hd : (t.isDropped && !t.isBusy) = false) :
    ∃ l, { t with stage := .armed route (.hub e.key l), isBusy := true } ∈
        (s.act (.move (.task t.id))).world.tasks ∧
      l ∈ (s.act (.move (.task t.id))).world.hub.registry.on e.key ∧
      (s.act (.move (.task t.id))).world.hub.inbox l = [] := by
  obtain ⟨ht', hhub⟩ := h.registers ht hst he hroute hmedium hd
  refine ⟨s.world.hub.next, ht', ?_, ?_⟩
  · rw [hhub]
    exact Listeners.next_on_add _ _
  · rw [hhub]
    exact Listeners.inbox_add_next h.seated.hub.not_holds_next e.key

end Scene

end Roaming.Simulation
