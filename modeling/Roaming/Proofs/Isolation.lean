import Roaming.Proofs.Keys
import Roaming.Proofs.Shares

/-!
# Requests do not disturb each other

Two runs in which the same concerns one request lead it to the same POST and to the same
outcome, whoever else is there. So it does by itself: in a run of nothing but what concerns it.
What it returns was published on its key while it listened, and keys tell the transactions of
all clients apart.
-/

set_option autoImplicit false
set_option relaxedAutoImplicit false

namespace Roaming.Simulation

open Roaming.Text (Bytes)

/-- The acts that do to a task in a scene what concerns it. -/
def Concern.acts (id : WorkId) (key : Key) (s : Scene) : Concern → List Act
  | .turn => [.move (.task id)]
  | .carry =>
    match s.world.couriers.find? (·.waiter = id) with
    | some c => [.move (.post c.id)]
    | none => []
  | .ring time => [.ring time]
  | .cancel => [.cancel id]
  | .drop => [.drop id]
  | .payload q => [.publish key q]

/-- A run of nothing but what concerns a task. -/
def Scene.alone (id : WorkId) (key : Key) : List Concern → Scene → List Act
  | [], _ => []
  | c :: cs, s => c.acts id key s ++ alone id key cs (s.after (c.acts id key s))

/-- Whether a task is a request at its beginning, in a scene that can be reached. -/
structure Scene.Begins (s : Scene) (p : Plan) (t : Task) : Prop where
  reachable : ∃ (s₀ : Scene) (acts : List Act), s₀.IsOpening ∧ s = s₀.after acts
  mem : t ∈ s.world.tasks
  fresh : t.stage = .fresh
  job : t.job = p.job
  reacts : s.world.Reacts p.errand.caller.peer p.react p.outlet

/-- Whether two tasks in two scenes begin under the same conditions. -/
structure Scene.BeginsLike (s : Scene) (t : Task) (s' : Scene) (t' : Task) : Prop where
  now : s'.world.now = s.world.now
  cancellation : t'.cancellation = t.cancellation
  isDropped : t'.isDropped = t.isDropped
  isBusy : t'.isBusy = t.isBusy

/-- Whether two tasks in two scenes have come to the same POST and the same outcome. -/
structure Scene.EndsLike (s : Scene) (id : WorkId) (s' : Scene) (id' : WorkId) : Prop where
  outcomes : s'.world.outcomes id' = s.world.outcomes id
  posts : ∀ q : Post, (∃ c ∈ s'.world.couriers, c.waiter = id' ∧ c.post = q) ↔
    ∃ c ∈ s.world.couriers, c.waiter = id ∧ c.post = q

/-- Whether what a task returned was published on its key since it was armed. -/
def Scene.ReturnsPublished (s : Scene) (t : Task) (key : Key) (acts : List Act) : Prop :=
  ∀ o, (s.after acts).world.outcomes t.id = [o] →
    ∃ begun armed later r,
      acts = begun ++ .move (.task t.id) :: (armed ++ .move (.task t.id) :: later) ∧
      o = t.job.outcome r ∧ ∀ q, r = .ok q →
        q ∈ payloadsOn key (((s.after begun).act (.move (.task t.id))).published armed)

/-- The share of a request at its beginning. -/
def Share.ofTask (now : Nat) (t : Task) : Share where
  now := now
  cancellation := t.cancellation
  isDropped := t.isDropped
  isBusy := t.isBusy

/-- The outcome of a request that has gone. -/
def Phase.outcomes : Phase → List Outcome
  | .gone o => o.toList
  | _ => []

namespace Scene

variable {s : Scene} {p : Plan} {id : WorkId} {x : Share}

theorem Begins.sound {t : Task} (h : s.Begins p t) : s.Sound := by
  obtain ⟨s₀, acts, hopening, rfl⟩ := h.reachable
  exact hopening.sound_after acts

theorem Begins.shows {t : Task} (h : s.Begins p t) :
    s.Shows p t.id (.ofTask s.world.now t) where
  lt := h.sound.seated.ids_lt t h.mem
  reacts := h.reacts
  now := rfl
  post := by
    have hplace := h.sound.tidy.inPlace t h.mem
    rw [Task.InPlace, h.fresh] at hplace
    exact hplace
  peer q hq := by cases hq
  task := by
    refine .there t h.mem rfl h.job rfl rfl rfl ?_
    rw [h.fresh]
    exact .fresh

theorem BeginsLike.share_eq {s' : Scene} {t t' : Task} (h : s.BeginsLike t s' t') :
    Share.ofTask s'.world.now t' = Share.ofTask s.world.now t := by
  rw [Share.ofTask, Share.ofTask, h.now, h.cancellation, h.isDropped, h.isBusy]

/-! ### What a share tells -/

private theorem Sound.outcomes_of_shows (h : s.Sound) (hx : s.Shows p id x) :
    s.world.outcomes id = x.phase.outcomes := by
  cases hx.task with
  | gone o hphase hgone ho =>
    rw [ho, hphase]
    rfl
  | there t ht hid hjob hcancel hdropped hbusy hfits =>
    rw [← hid, h.outcomes_of_mem ht]
    generalize t.stage = stage at hfits
    generalize x.phase = phase at hfits
    cases hfits <;> rfl

private theorem Sound.posts_of_shows (h : s.Sound) (hx : s.Shows p id x) (q : Post) :
    (∃ c ∈ s.world.couriers, c.waiter = id ∧ c.post = q) ↔ x.post = some q := by
  have hp := hx.post
  constructor
  · rintro ⟨c, hc, hw, rfl⟩
    cases hpost : x.post with
    | none =>
      rw [hpost] at hp
      exact absurd hw (hp c hc)
    | some r =>
      rw [hpost] at hp
      obtain ⟨d, hd, hdw, rfl⟩ := hp
      rw [h.courier_unique hc hd (hw.trans hdw.symm)]
  · intro hpost
    rw [hpost] at hp
    exact hp

private theorem endsLike_of_shows {s' : Scene} {id' : WorkId} (h : s.Sound) (h' : s'.Sound)
    (hx : s.Shows p id x) (hx' : s'.Shows p id' x) : s.EndsLike id s' id' where
  outcomes := (h'.outcomes_of_shows hx').trans (h.outcomes_of_shows hx).symm
  posts q := (h'.posts_of_shows hx' q).trans (h.posts_of_shows hx q).symm

/-! ### A request alone -/

private theorem Sound.shows_concern (h : s.Sound) (hx : s.Shows p id x) (c : Concern) :
    (s.after (c.acts id p.errand.key s)).Shows p id (p.step x c) := by
  have hact : ∀ a, a ≠ .close → s.concerns id p.errand.key a = [c] →
      (s.after [a]).Shows p id (p.step x c) := by
    intro a hclose hc
    have hx' := h.shows_act hx hclose
    rw [hc] at hx'
    exact hx'
  cases c with
  | turn => exact hact _ (by simp) (if_pos rfl)
  | ring time => exact hact _ (by simp) rfl
  | cancel => exact hact _ (by simp) (if_pos rfl)
  | drop => exact hact _ (by simp) (if_pos rfl)
  | payload q =>
    refine hact _ (by simp) ?_
    simp [concerns, publications, payloadsOn]
  | carry =>
    rw [Concern.acts]
    cases hfind : s.world.couriers.find? (·.waiter = id) with
    | some c =>
      have hw : c.waiter = id := by simpa using List.find?_some hfind
      exact h.shows_carry hx (List.mem_of_find?_eq_some hfind) hw
    | none =>
      have hpost : x.post = none := by
        by_contra hne
        obtain ⟨q, hq⟩ := Option.ne_none_iff_exists'.mp hne
        obtain ⟨c, hc, hw, -⟩ := (h.posts_of_shows hx q).mpr hq
        exact List.find?_eq_none.mp hfind c hc (by simpa using hw)
      have hstep : p.step x .carry = x := by rw [Plan.step, Plan.carry, hpost]
      rw [hstep]
      exact hx

private theorem Sound.shows_alone (h : s.Sound) (hx : s.Shows p id x) (cs : List Concern) :
    (s.after (s.alone id p.errand.key cs)).Shows p id (p.steps cs x) := by
  induction cs generalizing s x with
  | nil => exact hx
  | cons c cs ih =>
    rw [alone, after_append]
    exact ih (h.after _) (h.shows_concern hx c)

/-! ### What a request returns -/

private theorem Sound.returns_heard (h : s.Sound) {u : Task} {key : Key} {l : ListenerId}
    (heard : List Bytes) (hu : u ∈ s.world.tasks) (hsub : u.subscription? = some (.hub key l))
    (hheard : ∀ q ∈ s.world.hub.inbox l, q ∈ heard) {acts : List Act} {o : Outcome}
    (ho : (s.after acts).world.outcomes u.id = [o]) :
    ∃ armed later r, acts = armed ++ .move (.task u.id) :: later ∧ o = u.job.outcome r ∧
      ∀ q, r = .ok q → q ∈ heard ++ payloadsOn key (s.published armed) := by
  induction acts generalizing s u heard with
  | nil =>
    rw [after_nil, h.outcomes_of_mem hu] at ho
    cases ho
  | cons a acts ih =>
    cases h.leaving hu a with
    | cleared ha hd hgone ho' =>
      have hsame := ((h.act a).gone_after (h.lt_nextId hu a) hgone acts).2
      rw [after_cons, hsame, ho'] at ho
      cases ho
    | leaves pubs o' ha hd hl hgone ho' =>
      have hsame := ((h.act a).gone_after (h.lt_nextId hu a) hgone acts).2
      rw [after_cons, hsame, ho'] at ho
      obtain rfl := Option.toList_eq_singleton_iff.mp ho
      rcases Task.stage_of_hub hsub with ⟨route, hst⟩ | ⟨v, hst, hv⟩
      · exact absurd hst hl.not_armed
      · rw [ha] at ho'
        obtain ⟨r, hr, hout⟩ := h.verdict_of_leaves hu hst hd ho'
        refine ⟨[], acts, r, by rw [ha]; rfl, hout, ?_⟩
        rintro q rfl
        obtain ⟨rest, hinbox⟩ := Listeners.sight_eq_message.mp ((World.verdict_eq_ok hv).mp hr)
        refine List.mem_append_left _ (hheard q ?_)
        rw [hinbox]
        exact List.mem_cons_self
    | stays u' W hfate hW hu' ho' =>
      have hsub' := hfate.subscription_eq hsub
      have hheld : s.Has (.task u.id) (.hub key l) := ⟨u, hu, rfl, hsub⟩
      have hheld' : (s.act a).Has (.task u.id) (.hub key l) := ⟨u', hu', hfate.id_eq, hsub'⟩
      have hheard' : ∀ q ∈ (s.act a).world.hub.inbox l,
          q ∈ heard ++ payloadsOn key (s.publications a) := by
        intro q hq
        rw [h.seated.inbox_act hheld hheld' (by simp)] at hq
        split at hq
        · rcases List.mem_append.mp (Inbox.mem_offerAll hq) with hq | hq
          · exact List.mem_append_left _ (hheard q hq)
          · exact List.mem_append_right _ hq
        · exact List.mem_append_left _ (hheard q hq)
      rw [after_cons, ← hfate.id_eq] at ho
      obtain ⟨armed, later, r, rfl, hr, hq⟩ := ih (h.act a) _ hu' hsub' hheard' ho
      refine ⟨a :: armed, later, r, by rw [hfate.id_eq]; rfl, hfate.job_eq.2 ▸ hr, fun q hok => ?_⟩
      rw [published, payloadsOn_append, ← List.append_assoc]
      exact hq q hok

private theorem Sound.returnsPublished (h : s.Sound) {t : Task} (ht : t ∈ s.world.tasks)
    (hst : t.stage = .fresh) (hjob : t.job = p.job) (acts : List Act) :
    s.ReturnsPublished t p.errand.key acts := by
  intro o ho
  have he : t.job.errand? = some p.errand := by rw [hjob, p.job_errand]
  induction acts generalizing s t with
  | nil =>
    rw [after_nil, h.outcomes_of_mem ht] at ho
    cases ho
  | cons a acts ih =>
    by_cases ha : a = .move (.task t.id)
    · subst ha
      by_cases hd : (t.isDropped && !t.isBusy) = true
      · obtain ⟨hgone, hnone⟩ := h.cleared_act ht hd
        have hsame := ((h.act _).gone_after (h.lt_nextId ht _) hgone acts).2
        rw [after_cons, hsame, hnone] at ho
        cases ho
      · obtain ⟨l, ht', -, hinbox⟩ :=
          h.begins_on_hub ht hst he p.answers p.overHub (by simpa using hd)
        obtain ⟨armed, later, r, rfl, hr, hq⟩ := (h.act _).returns_heard [] ht' rfl
          (by rw [hinbox]; simp) ho
        exact ⟨[], armed, later, r, rfl, hr, hq⟩
    · obtain ⟨t', ht', hid, hjob', hst'⟩ := h.stays_of_other ht ha
      rw [after_cons, ← hid] at ho
      obtain ⟨begun, armed, later, r, rfl, hr, hq⟩ :=
        ih (h.act a) ht' (hst'.trans hst) (hjob'.trans hjob) ho (hjob' ▸ he)
      rw [hid] at hq ⊢
      exact ⟨a :: begun, armed, later, r, rfl, hjob' ▸ hr, hq⟩

/-- What concerns a request decides its POST and its outcome, whoever else is there; it comes to the
same by itself. It returns only what was published on its key while it listened, and only requests
of the same key space, operation and transaction have the same key. -/
theorem requests_are_isolated {s' : Scene} {t t' : Task} (h : s.Begins p t) (h' : s'.Begins p t')
    (hlike : s.BeginsLike t s' t') :
    (∀ acts acts', .close ∉ acts → .close ∉ acts' →
      s'.trace t'.id p.errand.key acts' = s.trace t.id p.errand.key acts →
      (s.after acts).EndsLike t.id (s'.after acts') t'.id) ∧
    (∀ acts, .close ∉ acts →
      (s.after acts).EndsLike t.id
        (s'.after (s'.alone t'.id p.errand.key (s.trace t.id p.errand.key acts))) t'.id) ∧
    (∀ acts, s.ReturnsPublished t p.errand.key acts) ∧
    ∀ (actor actor' : Actor) (op op' : Operation) (r : Request op) (r' : Request op'),
      actor.requestKey r = actor'.requestKey r' →
      actor.settings.keys.space = actor'.settings.keys.space ∧
        actor.settings.keys.component = actor'.settings.keys.component ∧ op = op' ∧
        r.base.transactionID = r'.base.transactionID := by
  have hx := h.shows
  have hx' := h'.shows
  rw [hlike.share_eq] at hx'
  refine ⟨fun acts acts' hclose hclose' htrace => ?_, fun acts hclose => ?_, fun acts => ?_, ?_⟩
  · have hend := h.sound.shows_after hx hclose
    have hend' := h'.sound.shows_after hx' hclose'
    rw [htrace] at hend'
    exact endsLike_of_shows (h.sound.after acts) (h'.sound.after acts') hend hend'
  · exact endsLike_of_shows (h.sound.after acts) (h'.sound.after _) (h.sound.shows_after hx hclose)
      (h'.sound.shows_alone hx' _)
  · exact h.sound.returnsPublished h.mem h.fresh h.job acts
  · intro actor actor' op op' r r' hkey
    obtain ⟨hspace, hcomponent, htag, hid⟩ := KeySpace.key_injective hkey
    exact ⟨hspace, hcomponent, congrArg Tag.operation htag, hid⟩

/-- The request of `firstJob`, to a peer that is silent. -/
def firstPlan : Plan where
  job := firstJob
  errand := ⟨⟨0, some ⟨.hub "x0", .ofMillis 1000, .failFast⟩⟩, "k", [1]⟩
  route := ⟨.hub "x0", .ofMillis 1000, .failFast⟩
  hub := "x0"
  react _ := {}
  outlet := .hub
  job_errand := rfl
  answers := rfl
  overHub := rfl

/-- A request is answered as if the one before it, on another key, were not there. -/
theorem request_ends_like_alone :
    ((opening [silentPeer]).after
        [.start "t0" (.exchange ⟨0, firstPlan.errand.caller.answers⟩ "j" []) .never,
        .start "t1" firstJob .never] |>.after [.move (.task 0), .move (.task 1),
        .publish "j" [8], .move (.task 1), .publish "k" [7], .move (.task 0),
        .move (.task 1)]).EndsLike 1
      ((opening [silentPeer]).after [.start "t1" firstJob .never] |>.after [.move (.task 0),
        .move (.task 0), .publish "k" [7], .move (.task 0)]) 0 := by
  have hsecond : ((opening [silentPeer]).after [.start "t0"
      (.exchange ⟨0, firstPlan.errand.caller.answers⟩ "j" []) .never,
      .start "t1" firstJob .never]).Begins firstPlan { id := 1, name := "t1", job := firstJob } :=
    ⟨⟨opening [silentPeer], _, opening_isOpening _, rfl⟩,
      List.mem_cons_of_mem _ (List.mem_singleton_self _), rfl, rfl, silentPeer, rfl, rfl,
      fun _ _ => rfl⟩
  have halone : ((opening [silentPeer]).after [.start "t1" firstJob .never]).Begins firstPlan
      { id := 0, name := "t1", job := firstJob } :=
    ⟨⟨opening [silentPeer], _, opening_isOpening _, rfl⟩, List.mem_singleton_self _, rfl, rfl,
      silentPeer, rfl, rfl, fun _ _ => rfl⟩
  have hisolated := requests_are_isolated hsecond halone ⟨rfl, rfl, rfl, rfl⟩
  exact hisolated.1 _ _ (by simp) (by simp) rfl

end Scene

end Roaming.Simulation
