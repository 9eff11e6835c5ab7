import Roaming.Proofs.Endings

/-!
# The hub through an act

An act changes the hub in one way at most: what it publishes is offered, a listener comes
(`Scene.newcomer?`) or goes, one payload is read, or the hub is closed (`HubChange`). So a listener
that is held before and after the act stays on its key, unless the hub is closed, and its inbox is
offered what is published on its key.
-/

set_option autoImplicit false
set_option relaxedAutoImplicit false

namespace Roaming.Simulation

open Roaming.Text (Bytes)

/-- The key on which a task listens on the hub when it begins, if it is to begin. -/
def Task.hubKey? (t : Task) : Option Key :=
  match t.stage, t.job.errand? with
  | .fresh, some e =>
    match e.caller.answers with
    | some { medium := .hub _, .. } => some e.key
    | _ => none
  | _, _ => none

/-- An entry of the hub: who listens on which key, by which id, and what is unread. -/
structure Entry where
  owner : Owner
  key : Key
  id : ListenerId
  unread : Inbox := []
deriving DecidableEq

/-- The entry that an act adds to the hub: of who listens there, or of an exchange that begins. -/
def Scene.newcomer? (a : Act) (s : Scene) : Option Entry :=
  match a with
  | .listen none key => some { owner := .handle s.handles.length, key, id := s.world.hub.next }
  | .move (.task id) =>
    match s.world.task? id with
    | some t =>
      if t.isDropped && !t.isBusy then none
      else t.hubKey?.map fun key => { owner := .task id, key, id := s.world.hub.next }
    | none => none
  | _ => none

/-- How an act that publishes `pubs` changes the hub. -/
inductive HubChange (w : World) (hs : List (Option Subscription)) (a : Act)
    (pubs : List Publication) (W : World) (hs' : List (Option Subscription)) : Prop where
  | offers (hW : W.hub = w.hub.offerAll pubs)
  | adds (q : Owner) (key : Key) (hnew : Scene.newcomer? a ⟨w, hs⟩ = some ⟨q, key, w.hub.next, []⟩)
      (hpubs : pubs = []) (hW : W.hub = w.hub.add key)
  | releases (o : Owner) (key : Key) (id : ListenerId) (ho : HeldBy w.tasks hs (.hub key id) o)
      (hgone : ∀ sub, ¬ HeldBy W.tasks hs' sub o) (hpubs : pubs = [])
      (hW : W.hub = w.hub.release key id)
  | takes (n : Nat) (key : Key) (id : ListenerId) (ha : a = .receive n)
      (hn : hs[n]? = some (some (.hub key id))) (hpubs : pubs = []) (hW : W.hub = w.hub.take id)
  | closes (ha : a = .close) (hpubs : pubs = []) (hW : W.hub = w.hub.disconnect)

namespace World

variable {w : World}

theorem hub_left (t : Task) (o : Option Outcome) :
    (w.left t o).hub = match t.subscription? with
      | some (.hub key id) => w.hub.release key id
      | _ => w.hub := by
  unfold left
  cases t.subscription? with
  | none => rfl
  | some sub => cases sub <;> rfl

theorem hub_gained (id : WorkId) (gain : Gain) :
    (w.gained id gain).hub = match gain with
      | .listener none key => w.hub.add key
      | _ => w.hub := by
  cases gain with
  | nothing => rfl
  | listener place key => cases place <;> rfl
  | courier peer body alarm => cases alarm <;> rfl

end World

/-- A task that has a listener publishes nothing when it leaves. -/
theorem Leaves.pubs_eq_nil {w : World} {t : Task} {pubs : List Publication} {o : Option Outcome}
    (h : Leaves w t pubs o) {sub : Subscription} (hsub : t.subscription? = some sub) :
    pubs = [] := by
  cases h with
  | pushed actor op answer p ending hjob hp hend =>
    rw [Task.push?_of_subscription hsub] at hp
    cases hp
  | _ => rfl

/-- It has an outcome, since it makes no POST of its own. -/
theorem Leaves.outcome {w : World} {t : Task} {pubs : List Publication} {o : Option Outcome}
    (h : Leaves w t pubs o) {sub : Subscription} (hsub : t.subscription? = some sub) :
    ∃ x, o = some x := by
  cases h with
  | pushed actor op answer p ending hjob hp hend =>
    rw [Task.push?_of_subscription hsub] at hp
    cases hp
  | _ => exact ⟨_, rfl⟩

/-! ### What is published -/

/-- A task that exchanges makes no POST itself. -/
theorem Task.push?_of_errand {t : Task} {e : Errand} (he : t.job.errand? = some e) :
    t.push? = none := by
  unfold push?
  cases hj : t.job with
  | push actor op answer => simp [Job.errand?, hj] at he
  | _ => cases t.stage <;> rfl

/-- Nor does a task that has nothing to go on with. -/
private theorem push?_of_idle {w : World} {t : Task} (h : t.IsIdle w) : t.push? = none := by
  cases he : t.job.errand? with
  | some e => exact Task.push?_of_errand he
  | none =>
    unfold Task.IsIdle at h
    rw [he] at h
    cases hst : t.stage with
    | pushing p => simpa [hst] using h
    | fresh => simp [hst] at h
    | _ => simp [Task.push?, hst]

/-- What a task publishes that is moved. -/
private theorem publications_task {w : World} {id : WorkId} {t : Task}
    (hs : List (Option Subscription)) (ht : w.task? id = some t) :
    Scene.publications (.move (.task id)) ⟨w, hs⟩ =
      if t.isDropped && !t.isBusy then [] else ((t.push?).map w.carries).getD [] := by
  simp only [Scene.publications, ht]
  split
  · rfl
  · cases t.push? <;> rfl

private theorem carried_of_none {w : World} {t : Task} (h : t.push? = none) :
    ((t.push?).map w.carries).getD [] = [] := by
  rw [h]
  rfl

private theorem publications_leaves {w : World} {t : Task} {pubs : List Publication}
    {o : Option Outcome} (h : Leaves w t pubs o) : ((t.push?).map w.carries).getD [] = pubs := by
  cases h with
  | pushed actor op answer p ending hjob hp hend =>
    rw [hp]
    rfl
  | refused refusal hst hjob => exact carried_of_none (by simp [Task.push?, hst, hjob])
  | unarmed e route name script f hst he hroute hmedium hf =>
    exact carried_of_none (Task.push?_of_errand he)
  | unconfirmed e route i call listener f hst he ho =>
    exact carried_of_none (Task.push?_of_errand he)
  | decided v r hst hpoll => exact carried_of_none (by simp [Task.push?, hst])
  | answered e courier r hst he hr => exact carried_of_none (Task.push?_of_errand he)

private theorem publications_moves {w : World} {t : Task} {stage : Stage} {isBusy : Bool}
    {gain : Gain} (h : Moves w t stage isBusy gain) : ((t.push?).map w.carries).getD [] = [] := by
  cases h with
  | pushes p busy hp hnone =>
    rw [hp]
    exact World.carries_eq_nil hnone
  | waits hw =>
    refine carried_of_none ?_
    unfold Task.IsWaiting at hw
    cases hst : t.stage with
    | subscribing route i call listener => simp [Task.push?, hst]
    | awaiting courier => simp [Task.push?, hst]
    | _ => simp [hst] at hw
  | looks v hst hpoll => exact carried_of_none (by simp [Task.push?, hst])
  | asks e hst he hroute => exact carried_of_none (Task.push?_of_errand he)
  | enlists e route name hst he hroute hmedium => exact carried_of_none (Task.push?_of_errand he)
  | feigns e route name script hst he hroute hmedium hok =>
    exact carried_of_none (Task.push?_of_errand he)
  | calls e route i s hst he hroute hmedium hs => exact carried_of_none (Task.push?_of_errand he)
  | confirms e route i call listener hst he ho => exact carried_of_none (Task.push?_of_errand he)
  | launches e route sub v hst he hv => exact carried_of_none (Task.push?_of_errand he)

private theorem publications_aside {w : World} {hs : List (Option Subscription)} {a : Act}
    (ha : a.IsAside w hs) : Scene.publications a ⟨w, hs⟩ = [] := by
  cases a with
  | move r =>
    cases r with
    | task id =>
      have hnone : w.task? id = none := ha
      simp only [Scene.publications, hnone]
    | post id =>
      cases hc : w.courier? id with
      | none => simp only [Scene.publications, hc]
      | some c =>
        have hcarries := (World.advanced_of_ended (w := w) (ha c hc)).2
        simp only [Scene.publications, hc, hcarries]
    | agent i => rfl
  | publish key payload => exact ha.elim
  | _ => rfl

/-! ### The change by an act -/

/-- An act that publishes nothing and leaves the hub as it is. -/
private theorem HubChange.of_same {w W : World} {hs hs' : List (Option Subscription)} {a : Act}
    {pubs : List Publication} (hpubs : pubs = []) (hW : W.hub = w.hub) :
    HubChange w hs a pubs W hs' := by
  refine .offers ?_
  rw [hpubs, hW]
  rfl

/-- A task that goes either publishes something or releases its listener. -/
private theorem hubChange_left {w : World} {hs : List (Option Subscription)} {a : Act} {t : Task}
    (ht : t ∈ w.tasks) {pubs : List Publication} (o : Option Outcome)
    (hnil : ∀ sub, t.subscription? = some sub → pubs = []) :
    HubChange w hs a pubs ((w.offered pubs).left t o) hs := by
  have hhub := World.hub_left (w := w.offered pubs) t o
  cases hsub : t.subscription? with
  | none =>
    rw [hsub] at hhub
    exact .offers hhub
  | some sub =>
    rw [hsub] at hhub
    have hpubs : pubs = [] := hnil sub hsub
    subst hpubs
    cases sub with
    | hub key l =>
      refine .releases (.task t.id) key l ⟨t, ht, rfl, hsub⟩ ?_ rfl hhub
      rintro sub ⟨u, hu, huid, -⟩
      exact (World.mem_left.mp hu).2 huid
    | puppet name key script => exact .of_same rfl hhub
    | link i key l => exact .of_same rfl hhub

private theorem Moves.hubKey?_eq {w : World} {t : Task} {stage : Stage} {isBusy : Bool} {key : Key}
    (h : Moves w t stage isBusy (.listener none key)) : t.hubKey? = some key := by
  cases h with
  | enlists e route name hst he hroute hmedium =>
    obtain ⟨medium, timeout, policy⟩ := route
    dsimp only at hmedium
    subst hmedium
    simp only [Task.hubKey?, hst, he, hroute]

private theorem Turned.hubChange {w W : World} {hs : List (Option Subscription)} {id : WorkId}
    {t : Task} (ht : w.task? id = some t) (hW : Turned w t W) :
    HubChange w hs (.move (.task id)) (Scene.publications (.move (.task id)) ⟨w, hs⟩) W hs := by
  have hmem : t ∈ w.tasks := List.mem_of_find?_eq_some ht
  rw [publications_task hs ht]
  cases hW with
  | cleared hd =>
    rw [if_pos hd]
    exact hubChange_left hmem none fun _ _ => rfl
  | still hd hidle =>
    rw [hd]
    exact .of_same (carried_of_none (push?_of_idle hidle)) rfl
  | leaves hd pubs o hl =>
    rw [hd, if_neg Bool.false_ne_true, publications_leaves hl]
    exact hubChange_left hmem o fun _ hsub => hl.pubs_eq_nil hsub
  | moves hd stage isBusy gain hm =>
    rw [hd, if_neg Bool.false_ne_true, publications_moves hm]
    have hhub := World.hub_gained (w := w) t.id gain
    cases gain with
    | listener place key =>
      cases place with
      | none =>
        refine .adds (.task id) key ?_ rfl hhub
        simp only [Scene.newcomer?, ht, hd, hm.hubKey?_eq]
        rfl
      | some i => exact .of_same rfl hhub
    | nothing => exact .of_same rfl hhub
    | courier peer body alarm => exact .of_same rfl hhub

/-- Every act changes the hub in one of these ways. -/
theorem Effect.hubChange {w W : World} {hs hs' : List (Option Subscription)} {a : Act}
    {rs : List Runnable} (he : Effect w hs a W hs' rs) :
    HubChange w hs a (Scene.publications a ⟨w, hs⟩) W hs' := by
  cases he with
  | aside a ha => exact .of_same (publications_aside ha) rfl
  | starts name job cancellation => exact .of_same rfl rfl
  | turns id t W ht hW => exact hW.hubChange ht
  | carries id c hc hopen =>
    refine .offers ?_
    simp only [Scene.publications, hc]
    rfl
  | cancels id t ht => exact .of_same rfl rfl
  | drops id t ht => exact .of_same rfl rfl
  | rings time => exact .of_same rfl rfl
  | publishes key payload => exact .offers rfl
  | closes => exact .closes rfl rfl rfl
  | listens place key l sub hl hseat hkey =>
    cases place with
    | none => exact .adds (.handle hs.length) key rfl rfl rfl
    | some i => exact .of_same rfl rfl
  | receives n sub hn =>
    cases sub with
    | hub key id => exact .takes n key id rfl hn rfl rfl
    | puppet name key script => exact .of_same rfl rfl
    | link i key id => exact .of_same rfl rfl
  | releases n sub hn =>
    cases sub with
    | hub key id =>
      refine .releases (.handle n) key id hn ?_ rfl rfl
      intro sub hheld
      have hlt : n < hs.length := (List.getElem?_eq_some_iff.mp hn).1
      rw [HeldBy, List.getElem?_set_self hlt] at hheld
      cases hheld
    | puppet name key script => exact .of_same rfl rfl
    | link i key id => exact .of_same rfl rfl

namespace Scene

variable {s : Scene}

theorem Seated.hubChange (h : s.Seated) (a : Act) :
    HubChange s.world s.handles a (s.publications a) (s.act a).world (s.act a).handles := by
  obtain ⟨W, rs, he, hleads, -⟩ := act_effect h a
  obtain ⟨rs₀, hrs, -⟩ := stage_eq s a
  have hpubs : publications a ⟨s.stage a, s.handles⟩ = s.publications a := by
    rw [hrs]
    cases a <;> rfl
  have hheld :
      ∀ {sub : Subscription} {o : Owner}, HeldBy (s.act a).world.tasks (s.act a).handles sub o →
      HeldBy W.tasks (s.act a).handles sub o := fun h => hleads.alike.tasks ▸ h
  have hhub := hleads.alike.hub
  have hchange := he.hubChange
  rw [hpubs] at hchange
  cases hchange with
  | offers hW =>
    refine .offers ?_
    rw [hhub, hW, hrs]
  | adds q key hnew hnil hW =>
    rw [hrs] at hnew
    refine .adds q key ?_ hnil ?_
    · rw [← hnew]
      cases a <;> rfl
    · rw [hhub, hW, hrs]
  | releases o key id ho hgone hnil hW =>
    rw [hrs] at ho
    refine .releases o key id ho (fun sub hs => hgone sub (hheld hs)) hnil ?_
    rw [hhub, hW, hrs]
  | takes n key id ha hn hnil hW =>
    refine .takes n key id ha hn hnil ?_
    rw [hhub, hW, hrs]
  | closes ha hnil hW =>
    refine .closes ha hnil ?_
    rw [hhub, hW, hrs]

/-! ### A listener that is held -/

section Held

variable {o : Owner} {key : Key} {id : ListenerId} {a : Act}

/-- Two holders have two listeners. -/
private theorem Seated.ids_ne (h : s.Seated) (ho : s.Has o (.hub key id)) {p : Owner} {k : Key}
    {i : ListenerId} (hp : s.Has p (.hub k i)) (hne : o ≠ p) : id ≠ i := by
  rintro rfl
  exact hne (h.unique o p _ _ (none, id) ho hp rfl rfl)

private theorem Seated.holds (h : s.Seated) (ho : s.Has o (.hub key id)) :
    s.world.hub.Holds id := by
  obtain ⟨l, hl, hid, -⟩ := h.seats o _ (none, id) ho rfl
  cases hl
  exact hid

/-- It stays on its key, unless the hub is closed. -/
theorem Seated.on_act (h : s.Seated) (ho : s.Has o (.hub key id))
    (ho' : (s.act a).Has o (.hub key id)) (ha : a ≠ .close)
    (hon : id ∈ s.world.hub.registry.on key) : id ∈ (s.act a).world.hub.registry.on key := by
  cases h.hubChange a with
  | offers hW =>
    rw [hW, Listeners.registry_offerAll]
    exact hon
  | adds q k hnew hnil hW =>
    rw [hW, Listeners.add, Registry.on_enroll]
    split
    · exact List.mem_append_left _ hon
    · exact hon
  | releases o' k i hheld hgone hnil hW =>
    have hne : id ≠ i := h.ids_ne ho hheld fun hoo => hgone _ (hoo ▸ ho')
    rw [hW, Listeners.on_release h.hub]
    split
    · exact List.mem_filter.mpr ⟨hon, by simpa using hne⟩
    · exact hon
  | takes n k i hn hmem hnil hW =>
    rw [hW]
    exact hon
  | closes hclose hnil hW => exact absurd hclose ha

/-- Unless its holder reads it, its inbox is offered what is published on its key while it is
registered, and nothing else. -/
theorem Seated.inbox_act (h : s.Seated) (ho : s.Has o (.hub key id))
    (ho' : (s.act a).Has o (.hub key id)) (hread : ∀ n, a = .receive n → o ≠ .handle n) :
    (s.act a).world.hub.inbox id =
      if id ∈ s.world.hub.registry.on key then
        (s.world.hub.inbox id).offerAll (payloadsOn key (s.publications a))
      else s.world.hub.inbox id := by
  have hholds := h.holds ho
  have hkept : s.publications a = [] → (s.act a).world.hub.inbox id = s.world.hub.inbox id →
      (s.act a).world.hub.inbox id =
        if id ∈ s.world.hub.registry.on key then
          (s.world.hub.inbox id).offerAll (payloadsOn key (s.publications a))
        else s.world.hub.inbox id := by
    intro hnil hsame
    rw [hnil, hsame, payloadsOn_nil, Inbox.offerAll_nil, ite_self]
  cases h.hubChange a with
  | offers hW =>
    rw [hW]
    by_cases hon : id ∈ s.world.hub.registry.on key
    · rw [if_pos hon, Listeners.inbox_offerAll h.hub hon]
    · rw [if_neg hon]
      refine Listeners.inbox_offerAll_of_not_on (fun k hk => ?_) hholds _
      exact hon (h.key_eq ho hk ▸ hk)
  | adds q k hnew hnil hW =>
    refine hkept hnil ?_
    rw [hW]
    exact Listeners.inbox_add hholds k
  | releases o' k i hheld hgone hnil hW =>
    have hne : id ≠ i := h.ids_ne ho hheld fun hoo => hgone _ (hoo ▸ ho')
    refine hkept hnil ?_
    rw [hW]
    exact Listeners.inbox_release hne k
  | takes n k i ha hn hnil hW =>
    have hne : id ≠ i := h.ids_ne ho (p := .handle n) hn (hread n ha)
    refine hkept hnil ?_
    rw [hW, Listeners.inbox_take, if_neg hne]
  | closes ha hnil hW =>
    refine hkept hnil ?_
    rw [hW]
    exact Listeners.inbox_disconnect _ _

/-- Unless its holder reads it, its inbox keeps what it has. -/
theorem Seated.prefix_act (h : s.Seated) (ho : s.Has o (.hub key id))
    (ho' : (s.act a).Has o (.hub key id)) (hread : ∀ n, a = .receive n → o ≠ .handle n) :
    s.world.hub.inbox id <+: (s.act a).world.hub.inbox id := by
  rw [h.inbox_act ho ho' hread]
  split
  · exact Inbox.prefix_offerAll _ _
  · exact List.prefix_refl _

end Held

end Scene

end Roaming.Simulation
