import Roaming.Proofs.Acts

/-!
# Who holds which listener

Every act keeps it up that each listener has one holder, that its inbox is there, and that the hub
has no entry but of listeners that are held.
-/

set_option autoImplicit false
set_option relaxedAutoImplicit false

namespace Roaming.Simulation

open Roaming.Text (Bytes)

/-! ### Seats after a change -/

namespace World

theorem Alike.seats {w w' : World} (h : w.Alike w') {seat : Seat} (hs : w.Seats seat) :
    w'.Seats seat := by
  obtain ⟨place, id⟩ := seat
  obtain ⟨l, hl, hid, hlt⟩ := hs
  cases place with
  | none =>
    simp only [listenersAt, Option.some.injEq] at hl
    subst hl
    exact ⟨w'.hub, rfl, h.hub ▸ hid, h.hub ▸ hlt⟩
  | some i =>
    simp only [listenersAt, Option.map_eq_some_iff] at hl
    obtain ⟨s, hs, rfl⟩ := hl
    obtain ⟨s', hs', he⟩ := h.stations i s hs
    exact ⟨s'.link.listeners, by simp [listenersAt, hs'], he.listeners.holds id hid,
      Nat.lt_of_lt_of_le hlt he.listeners.next_le⟩

theorem seats_onListeners {w : World} {place : Option Nat} {f : Listeners → Listeners} {seat : Seat}
    (hf : ∀ l : Listeners, seat.1 = place → l.Holds seat.2 → (f l).Holds seat.2)
    (hnext : ∀ l : Listeners, l.next ≤ (f l).next) (h : w.Seats seat) :
    (w.onListeners place f).Seats seat := by
  obtain ⟨l, hl, hid, hlt⟩ := h
  have hl' := listenersAt_onListeners place f w seat.1
  by_cases hp : seat.1 = place
  · rw [if_pos hp, hl, Option.map_some] at hl'
    exact ⟨f l, hl', hf l hp hid, Nat.lt_of_lt_of_le hlt (hnext l)⟩
  · rw [if_neg hp, hl] at hl'
    exact ⟨l, hl', hid, hlt⟩

end World

namespace Scene

variable {w w' : World} {hs hs' : List (Option Subscription)}

theorem Seated.alike (h : (⟨w, hs⟩ : Scene).Seated) (ha : w.Alike w') :
    (⟨w', hs⟩ : Scene).Seated := by
  have hhas : ∀ o sub, (⟨w', hs⟩ : Scene).Has o sub ↔ (⟨w, hs⟩ : Scene).Has o sub := by
    intro o sub
    simp only [Has, ha.tasks]
  constructor
  · rw [ha.tasks]
    exact h.ids
  · intro t ht
    rw [ha.nextId]
    exact h.ids_lt t (ha.tasks ▸ ht)
  · rw [ha.hub]
    exact h.hub
  · exact fun o sub seat ho hseat => ha.seats (h.seats o sub seat ((hhas o sub).mp ho) hseat)
  · exact fun o o' sub sub' seat ho ho' =>
      h.unique o o' sub sub' seat ((hhas o sub).mp ho) ((hhas o' sub').mp ho')
  · intro key id hid
    rw [ha.hub] at hid
    obtain ⟨o, ho⟩ := h.owned key id hid
    exact ⟨o, (hhas _ _).mpr ho⟩

/-- A change after which the same listeners are held, by the same holders. -/
theorem Seated.same (h : (⟨w, hs⟩ : Scene).Seated) (hids : (w'.tasks.map (·.id)).Nodup)
    (hlt : ∀ t ∈ w'.tasks, t.id < w'.nextId) (hhub : w'.hub.InOrder)
    (hseated : ∀ o sub, (⟨w', hs'⟩ : Scene).Has o sub → sub.seat?.isSome →
      (⟨w, hs⟩ : Scene).Has o sub)
    (hhas : ∀ o key id, (⟨w, hs⟩ : Scene).Has o (.hub key id) →
      (⟨w', hs'⟩ : Scene).Has o (.hub key id))
    (hseats : ∀ seat, w.Seats seat → w'.Seats seat)
    (hon : ∀ key id, id ∈ w'.hub.registry.on key → id ∈ w.hub.registry.on key) :
    (⟨w', hs'⟩ : Scene).Seated where
  ids := hids
  ids_lt := hlt
  hub := hhub
  seats o sub seat ho hseat :=
    hseats seat (h.seats o sub seat (hseated o sub ho (by rw [hseat]; rfl)) hseat)
  unique o o' sub sub' seat ho ho' hseat hseat' :=
    h.unique o o' sub sub' seat (hseated o sub ho (by rw [hseat]; rfl))
      (hseated o' sub' ho' (by rw [hseat']; rfl)) hseat hseat'
  owned key id hid := by
    obtain ⟨o, ho⟩ := h.owned key id (hon key id hid)
    exact ⟨o, hhas o key id ho⟩

/-- Somebody gets a new listener. -/
theorem Seated.gain (h : (⟨w, hs⟩ : Scene).Seated) {q : Owner} {sub₀ : Subscription}
    {place : Option Nat} {l : Listeners} (hl : w.listenersAt place = some l)
    (hseat₀ : sub₀.seat? = some (place, l.next))
    (hw : ∀ p, w'.listenersAt p = (w.enlisted place sub₀.key).listenersAt p)
    (hids : (w'.tasks.map (·.id)).Nodup) (hlt : ∀ t ∈ w'.tasks, t.id < w'.nextId)
    (hseated : ∀ o sub, (⟨w', hs'⟩ : Scene).Has o sub → sub.seat?.isSome →
      (⟨w, hs⟩ : Scene).Has o sub ∨ (o = q ∧ sub = sub₀))
    (hhas : ∀ o key id, (⟨w, hs⟩ : Scene).Has o (.hub key id) →
      (⟨w', hs'⟩ : Scene).Has o (.hub key id))
    (hhas₀ : (⟨w', hs'⟩ : Scene).Has q sub₀) : (⟨w', hs'⟩ : Scene).Seated := by
  have hhub : w'.hub = (w.enlisted place sub₀.key).hub := Option.some.inj (hw none)
  have hplace : w'.listenersAt place = some (l.add sub₀.key) := by
    rw [hw, World.enlisted, World.listenersAt_onListeners, if_pos rfl, hl]
    rfl
  -- Nobody has had the new seat, whose id was not used.
  have hnew : ∀ o sub, (⟨w, hs⟩ : Scene).Has o sub → sub.seat? ≠ some (place, l.next) := by
    intro o sub ho hseat
    obtain ⟨l', hl', -, hlt'⟩ := h.seats o sub _ ho hseat
    have heq : l' = l := Option.some.inj (hl'.symm.trans hl)
    subst heq
    exact Nat.lt_irrefl _ hlt'
  constructor
  · exact hids
  · exact hlt
  · rw [hhub]
    cases place with
    | none => exact h.hub.add sub₀.key
    | some i => exact h.hub
  · intro o sub seat ho hseat
    rcases hseated o sub ho (by rw [hseat]; rfl) with hold | ⟨rfl, rfl⟩
    · have hkept : (w.enlisted place sub₀.key).Seats seat :=
        World.seats_onListeners (fun _ _ hid => Listeners.holds_add.mpr (.inl hid))
          (fun _ => Nat.le_succ _) (h.seats o sub seat hold hseat)
      obtain ⟨l', hl', hrest⟩ := hkept
      exact ⟨l', (hw seat.1).trans hl', hrest⟩
    · have heq : seat = (place, l.next) := Option.some.inj (hseat.symm.trans hseat₀)
      subst heq
      exact ⟨_, hplace, Listeners.holds_add.mpr (.inr rfl), Nat.lt_succ_self _⟩
  · intro o o' sub sub' seat ho ho' hseat hseat'
    rcases hseated o sub ho (by rw [hseat]; rfl) with hold | ⟨rfl, rfl⟩ <;>
      rcases hseated o' sub' ho' (by rw [hseat']; rfl) with hold' | ⟨rfl, rfl⟩
    · exact h.unique o o' sub sub' seat hold hold' hseat hseat'
    · exact absurd (hseat.trans (hseat'.symm.trans hseat₀)) (hnew o sub hold)
    · exact absurd (hseat'.trans (hseat.symm.trans hseat₀)) (hnew o' sub' hold')
    · rfl
  · intro key id hid
    rw [hhub] at hid
    cases place with
    | some i =>
      obtain ⟨o, ho⟩ := h.owned key id hid
      exact ⟨o, hhas o key id ho⟩
    | none =>
      change id ∈ (w.hub.registry.enroll sub₀.key w.hub.next).on key at hid
      rw [Registry.on_enroll] at hid
      by_cases hk : key = sub₀.key
      · rw [if_pos hk] at hid
        rcases List.mem_append.mp hid with hid | hid
        · obtain ⟨o, ho⟩ := h.owned key id hid
          exact ⟨o, hhas o key id ho⟩
        · have hnext : w.hub = l := Option.some.inj hl
          rw [← hnext] at hseat₀
          refine ⟨q, ?_⟩
          rw [List.mem_singleton.mp hid, hk, ← Subscription.eq_hub hseat₀]
          exact hhas₀
      · rw [if_neg hk] at hid
        obtain ⟨o, ho⟩ := h.owned key id hid
        exact ⟨o, hhas o key id ho⟩

/-- Somebody releases a listener, or lets go of something that is none. -/
theorem Seated.lose (h : (⟨w, hs⟩ : Scene).Seated) {q : Owner} {sub₀ : Subscription}
    (hq : (⟨w, hs⟩ : Scene).Has q sub₀)
    (hw : ∀ p, w'.listenersAt p = (w.without sub₀).listenersAt p)
    (hids : (w'.tasks.map (·.id)).Nodup) (hlt : ∀ t ∈ w'.tasks, t.id < w'.nextId)
    (hhas : ∀ o sub, (⟨w', hs'⟩ : Scene).Has o sub ↔ (⟨w, hs⟩ : Scene).Has o sub ∧ o ≠ q) :
    (⟨w', hs'⟩ : Scene).Seated := by
  have hhub : w'.hub = (w.without sub₀).hub := Option.some.inj (hw none)
  have hkept : ∀ o sub seat, (⟨w, hs⟩ : Scene).Has o sub → o ≠ q → sub.seat? = some seat →
      w'.Seats seat := by
    intro o sub seat ho hne hseat
    have hother : sub₀.seat? ≠ some seat := fun hsame =>
      hne (h.unique o q _ _ seat ho hq hseat hsame)
    have hseats : (w.without sub₀).Seats seat := by
      unfold World.without
      split
      · rename_i place id hseat₀
        refine World.seats_onListeners (fun l hp hid => ?_) (fun _ => Nat.le_refl _)
          (h.seats o sub seat ho hseat)
        refine Listeners.holds_release.mpr ⟨hid, fun hsame => ?_⟩
        refine hother (hseat₀.trans (congrArg some ?_))
        exact Prod.ext hp.symm hsame.symm
      · exact h.seats o sub seat ho hseat
    obtain ⟨l', hl', hrest⟩ := hseats
    exact ⟨l', (hw seat.1).trans hl', hrest⟩
  constructor
  · exact hids
  · exact hlt
  · rw [hhub]
    cases sub₀ with
    | hub key id => exact h.hub.release fun k hid => h.key_eq hq hid
    | puppet name key script => exact h.hub
    | link i key id => exact h.hub
  · intro o sub seat ho hseat
    obtain ⟨ho, hne⟩ := (hhas o sub).mp ho
    exact hkept o sub seat ho hne hseat
  · intro o o' sub sub' seat ho ho'
    exact h.unique o o' sub sub' seat ((hhas o sub).mp ho).1 ((hhas o' sub').mp ho').1
  · intro key id hid
    rw [hhub] at hid
    -- What the hub still has on a key is not the listener that was released.
    have hon : id ∈ w.hub.registry.on key ∧ ∀ k, sub₀ ≠ .hub k id := by
      cases sub₀ with
      | hub k₀ id₀ =>
        change id ∈ (w.hub.release k₀ id₀).registry.on key at hid
        rw [Listeners.on_release h.hub] at hid
        by_cases hk : key = k₀
        · rw [if_pos hk] at hid
          obtain ⟨hid, hne⟩ := List.mem_filter.mp hid
          refine ⟨hid, fun k hsame => ?_⟩
          cases hsame
          exact of_decide_eq_true hne rfl
        · rw [if_neg hk] at hid
          refine ⟨hid, fun k hsame => ?_⟩
          cases hsame
          exact hk (h.key_eq hq hid)
      | puppet name k script => exact ⟨hid, by simp⟩
      | link i k l => exact ⟨hid, by simp⟩
    obtain ⟨o, ho⟩ := h.owned key id hon.1
    refine ⟨o, (hhas o _).mpr ⟨ho, ?_⟩⟩
    rintro rfl
    exact hon.2 key (h.has_unique hq ho)

/-! ### Holders after a change of one task -/

theorem has_putTask {t : Task} (t' : Task) (ht : t ∈ w.tasks) (hid : t'.id = t.id) {o : Owner}
    {sub : Subscription} : (⟨w.putTask t', hs⟩ : Scene).Has o sub ↔
      ((⟨w, hs⟩ : Scene).Has o sub ∧ o ≠ .task t.id) ∨
        (o = .task t.id ∧ t'.subscription? = some sub) := by
  cases o with
  | handle n => simp [Has, HeldBy]
  | task id =>
    simp only [Has, HeldBy, World.mem_putTask, Owner.task.injEq, ne_eq]
    constructor
    · rintro ⟨u, ⟨hu, hne⟩ | ⟨rfl, -⟩, rfl, hsub⟩
      · exact .inl ⟨⟨u, hu, rfl, hsub⟩, fun h => hne (h.trans hid.symm)⟩
      · exact .inr ⟨hid, hsub⟩
    · rintro (⟨⟨u, hu, rfl, hsub⟩, hne⟩ | ⟨rfl, hsub⟩)
      · exact ⟨u, .inl ⟨hu, fun h => hne (h.trans hid)⟩, rfl, hsub⟩
      · exact ⟨t', .inr ⟨rfl, t, ht, hid.symm⟩, hid, hsub⟩

theorem has_gone {t : Task} {outcome : Option Outcome} {o : Owner} {sub : Subscription} :
    (⟨w.gone t outcome, hs⟩ : Scene).Has o sub ↔
      (⟨w, hs⟩ : Scene).Has o sub ∧ o ≠ .task t.id := by
  cases o with
  | handle n => simp [Has, HeldBy]
  | task id =>
    simp only [Has, HeldBy, World.mem_gone, Owner.task.injEq, ne_eq]
    constructor
    · rintro ⟨u, ⟨hu, hne⟩, rfl, hsub⟩
      exact ⟨⟨u, hu, rfl, hsub⟩, hne⟩
    · rintro ⟨⟨u, hu, rfl, hsub⟩, hne⟩
      exact ⟨u, ⟨hu, hne⟩, rfl, hsub⟩

theorem Seated.ids_putTask (h : (⟨w, hs⟩ : Scene).Seated) (t' : Task) :
    ((w.putTask t').tasks.map (·.id)).Nodup := by
  rw [World.ids_putTask]
  exact h.ids

theorem Seated.ids_lt_putTask (h : (⟨w, hs⟩ : Scene).Seated) (t' : Task) :
    ∀ u ∈ (w.putTask t').tasks, u.id < w.nextId := by
  intro u hu
  have hmem : u.id ∈ w.tasks.map (·.id) := by
    rw [← World.ids_putTask t' w]
    exact List.mem_map_of_mem hu
  obtain ⟨v, hv, hid⟩ := List.mem_map.mp hmem
  rw [← hid]
  exact h.ids_lt v hv

/-- A task goes on with the listener that it has, or gets one that has no seat. -/
theorem Seated.putTask (h : (⟨w, hs⟩ : Scene).Seated) {t t' : Task} (ht : t ∈ w.tasks)
    (hid : t'.id = t.id)
    (hsub : t'.subscription? = t.subscription? ∨
      (t.subscription? = none ∧ ∀ sub, t'.subscription? = some sub → sub.seat? = none)) :
    (⟨w.putTask t', hs⟩ : Scene).Seated := by
  refine h.same (h.ids_putTask t') (h.ids_lt_putTask t') h.hub ?_ ?_ (fun _ hseat => hseat)
    fun _ _ hon => hon
  · intro o sub ho hseat
    rcases (has_putTask t' ht hid).mp ho with ⟨ho, -⟩ | ⟨rfl, hsub'⟩
    · exact ho
    · rcases hsub with hsame | ⟨-, hnone⟩
      · exact ⟨t, ht, rfl, hsame ▸ hsub'⟩
      · rw [hnone sub hsub'] at hseat
        simp at hseat
  · intro o key id ho
    by_cases hown : o = .task t.id
    · subst hown
      obtain ⟨u, hu, huid, husub⟩ := ho
      have hut := h.task_unique hu ht huid
      subst hut
      rcases hsub with hsame | ⟨hnone, -⟩
      · exact (has_putTask t' ht hid).mpr (.inr ⟨rfl, hsame.trans husub⟩)
      · rw [hnone] at husub
        cases husub
    · exact (has_putTask t' ht hid).mpr (.inl ⟨ho, hown⟩)

/-- A task goes with its listener. -/
theorem Seated.left (h : (⟨w, hs⟩ : Scene).Seated) {t : Task} (ht : t ∈ w.tasks)
    (o : Option Outcome) : (⟨w.left t o, hs⟩ : Scene).Seated := by
  have hids : ∀ u : World, u.tasks = w.tasks → ((u.gone t o).tasks.map (·.id)).Nodup := by
    intro u hu
    refine List.Nodup.sublist (List.filter_sublist.map _) ?_
    rw [hu]
    exact h.ids
  unfold World.left
  cases hsub : t.subscription? with
  | none =>
    refine h.same (hids w rfl) (fun u hu => h.ids_lt u (World.mem_gone.mp hu).1) h.hub
      (fun o' sub ho _ => (has_gone.mp ho).1) (fun o' key id ho => has_gone.mpr ⟨ho, ?_⟩)
      (fun _ hseat => hseat) fun _ _ hon => hon
    rintro rfl
    obtain ⟨u, hu, huid, husub⟩ := ho
    have hut := h.task_unique hu ht huid
    subst hut
    rw [hsub] at husub
    cases husub
  | some sub =>
    have hframe := World.listenersOnly_without w sub
    have htasks : (w.without sub).tasks = w.tasks := hframe.tasks
    refine h.lose (q := .task t.id) ⟨t, ht, rfl, hsub⟩ (fun _ => rfl) (hids _ htasks) ?_ ?_
    · intro u hu
      have hu' := (World.mem_gone.mp hu).1
      rw [htasks] at hu'
      change u.id < (w.without sub).nextId
      rw [hframe.nextId]
      exact h.ids_lt u hu'
    · intro o' sub'
      refine has_gone.trans ?_
      simp only [Has, htasks]

/-- What the listeners of one place do among themselves. -/
theorem Seated.onListeners (h : (⟨w, hs⟩ : Scene).Seated) {place : Option Nat}
    {f : Listeners → Listeners} (hinOrder : place = none → (f w.hub).InOrder)
    (hholds : ∀ l : Listeners, ∀ id, l.Holds id → (f l).Holds id)
    (hnext : ∀ l : Listeners, l.next ≤ (f l).next)
    (hon : ∀ l : Listeners, ∀ key id, id ∈ (f l).registry.on key → id ∈ l.registry.on key) :
    (⟨w.onListeners place f, hs⟩ : Scene).Seated := by
  have hframe := World.listenersOnly_onListeners place f w
  have hhas : ∀ o sub, (⟨w.onListeners place f, hs⟩ : Scene).Has o sub ↔
      (⟨w, hs⟩ : Scene).Has o sub := by
    intro o sub
    simp only [Has, hframe.tasks]
  refine h.same (by rw [hframe.tasks]; exact h.ids) ?_ ?_ (fun o sub ho _ => (hhas o sub).mp ho)
    (fun o key id ho => (hhas o _).mpr ho)
    (fun seat hseat => World.seats_onListeners (fun l _ => hholds l seat.2) hnext hseat) ?_
  · rw [hframe.tasks, hframe.nextId]
    exact h.ids_lt
  · cases place with
    | none => exact hinOrder rfl
    | some i => exact h.hub
  · intro key id hid
    cases place with
    | none => exact hon w.hub key id hid
    | some i => exact hid

theorem Seated.offered (h : (⟨w, hs⟩ : Scene).Seated) (pubs : List Publication) :
    (⟨w.offered pubs, hs⟩ : Scene).Seated :=
  h.onListeners (fun _ => h.hub.offerAll pubs) (fun _ _ hid => Listeners.holds_offerAll.mpr hid)
    (fun l => Nat.le_of_eq (Listeners.next_offerAll pubs l).symm)
    fun l key id hid => by rwa [Listeners.registry_offerAll] at hid

theorem Seated.disconnected (h : (⟨w, hs⟩ : Scene).Seated) :
    (⟨w.disconnected, hs⟩ : Scene).Seated :=
  h.onListeners (fun _ => h.hub.disconnect) (fun _ _ hid => hid) (fun _ => Nat.le_refl _)
    fun _ _ _ hid => by simp [Listeners.disconnect, Registry.on] at hid

theorem Seated.taken (h : (⟨w, hs⟩ : Scene).Seated) (sub : Subscription) :
    (⟨w.taken sub, hs⟩ : Scene).Seated := by
  unfold World.taken
  split
  · exact h.onListeners (fun _ => h.hub.take _) (fun _ _ hid => Listeners.holds_take.mpr hid)
      (fun _ => Nat.le_refl _) fun _ _ _ hid => hid
  · exact h

/-- Tasks, the hub and its listeners are what counts. -/
theorem Seated.congr (h : (⟨w, hs⟩ : Scene).Seated) (htasks : w'.tasks = w.tasks)
    (hnext : w.nextId ≤ w'.nextId) (hhub : w'.hub = w.hub) (hstations : w'.stations = w.stations) :
    (⟨w', hs⟩ : Scene).Seated := by
  have hat : ∀ p, w'.listenersAt p = w.listenersAt p := by
    intro p
    cases p <;> simp only [World.listenersAt, hhub, hstations]
  have hhas : ∀ o sub, (⟨w', hs⟩ : Scene).Has o sub ↔ (⟨w, hs⟩ : Scene).Has o sub := by
    intro o sub
    simp only [Has, htasks]
  refine h.same (by rw [htasks]; exact h.ids) ?_ (by rw [hhub]; exact h.hub)
    (fun o sub ho _ => (hhas o sub).mp ho) (fun o key id ho => (hhas o _).mpr ho) ?_ ?_
  · intro t ht
    rw [htasks] at ht
    exact Nat.lt_of_lt_of_le (h.ids_lt t ht) hnext
  · rintro seat ⟨l, hl, hrest⟩
    exact ⟨l, (hat seat.1).trans hl, hrest⟩
  · intro key id hid
    rwa [hhub] at hid

/-! ### Every act keeps the holders in order -/

/-- A task that moves on gets no listener but one that is new, or one that has no seat. -/
theorem moves_subscription {t : Task} {stage : Stage} {isBusy : Bool} {gain : Gain}
    (h : Moves w t stage isBusy gain) :
    match gain with
    | .listener place key => t.subscription? = none ∧ ∃ l sub, w.listenersAt place = some l ∧
        ({ t with stage, isBusy } : Task).subscription? = some sub ∧
        sub.seat? = some (place, l.next) ∧ sub.key = key
    | _ => ({ t with stage, isBusy } : Task).subscription? = t.subscription? ∨
        (t.subscription? = none ∧
          ∀ sub, ({ t with stage, isBusy } : Task).subscription? = some sub →
          sub.seat? = none) := by
  cases h with
  | waits hw => exact .inl rfl
  | asks e hst he hroute => exact .inl (by simp [Task.subscription?, hst])
  | enlists e route name hst he hroute hmedium =>
    exact ⟨by rw [Task.subscription?, hst], w.hub, _, rfl, rfl, rfl, rfl⟩
  | feigns e route name script hst he hroute hmedium hok =>
    refine .inr ⟨by rw [Task.subscription?, hst], fun sub hsub => ?_⟩
    cases hsub
    rfl
  | calls e route i s hst he hroute hmedium hs =>
    refine ⟨by rw [Task.subscription?, hst], s.link.listeners, .link i e.key s.link.listeners.next,
      ?_, ?_, rfl, rfl⟩
    · simp only [World.listenersAt, hs, Option.map_some]
    · simp only [Task.subscription?, he, Option.map_some]
  | confirms e route i call listener hst he ho =>
    exact .inl (by simp [Task.subscription?, hst, he])
  | launches e route sub v hst he hv =>
    exact .inl (by simp [Task.subscription?, hst, hv])
  | looks v hst hpoll => exact .inl (by simp [Task.subscription?, hst])
  | pushes p busy hp hnone =>
    refine .inl ?_
    unfold Task.push? at hp
    split at hp
    · rename_i hst hjob
      simp [Task.subscription?, hst]
    · rename_i hst hjob
      simp [Task.subscription?, hst]
    · simp at hp

private theorem Seated.moves (h : (⟨w, hs⟩ : Scene).Seated) {t : Task} (ht : t ∈ w.tasks)
    {stage : Stage} {isBusy : Bool} {gain : Gain} (hm : Moves w t stage isBusy gain) :
    (⟨(w.gained t.id gain).putTask { t with stage, isBusy }, hs⟩ : Scene).Seated := by
  have hsub := moves_subscription hm
  cases gain with
  | nothing => exact h.putTask ht rfl hsub
  | courier peer body alarm =>
    have hgained : (⟨w.gained t.id (.courier peer body alarm), hs⟩ : Scene).Seated := by
      cases alarm <;> exact h.congr rfl (Nat.le_succ _) rfl rfl
    have ht' : t ∈ (w.gained t.id (.courier peer body alarm)).tasks := by
      cases alarm <;> exact ht
    exact hgained.putTask ht' rfl hsub
  | listener place key =>
    obtain ⟨hnone, l, sub, hl, hsub', hseat, rfl⟩ := hsub
    have hframe := World.listenersOnly_onListeners place (·.add sub.key) w
    have ht' : t ∈ (w.enlisted place sub.key).tasks := by
      rw [World.enlisted, hframe.tasks]
      exact ht
    have hold : ∀ o sub', (⟨w.enlisted place sub.key, hs⟩ : Scene).Has o sub' ↔
        (⟨w, hs⟩ : Scene).Has o sub' := by
      intro o sub'
      simp only [Has, World.enlisted, hframe.tasks]
    have hput : ∀ o sub', (⟨(w.enlisted place sub.key).putTask { t with stage, isBusy }, hs⟩ :
        Scene).Has o sub' ↔ ((⟨w.enlisted place sub.key, hs⟩ : Scene).Has o sub' ∧ o ≠ .task t.id) ∨
          (o = .task t.id ∧ ({ t with stage, isBusy } : Task).subscription? = some sub') :=
      fun o sub' => has_putTask { t with stage, isBusy } ht' rfl
    refine h.gain (q := .task t.id) hl hseat (fun p => by cases p <;> rfl) ?_ ?_ ?_ ?_ ?_
    · change (((w.enlisted place sub.key).putTask _).tasks.map (·.id)).Nodup
      rw [World.ids_putTask, World.enlisted, hframe.tasks]
      exact h.ids
    · intro u hu
      have hmem : u.id ∈ ((w.enlisted place sub.key).putTask
          { t with stage, isBusy }).tasks.map (·.id) := List.mem_map_of_mem hu
      rw [World.ids_putTask, World.enlisted, hframe.tasks] at hmem
      obtain ⟨v, hv, hid⟩ := List.mem_map.mp hmem
      change u.id < (w.onListeners place (·.add sub.key)).nextId
      rw [hframe.nextId, ← hid]
      exact h.ids_lt v hv
    · intro o sub' ho _
      rcases (hput o sub').mp ho with ⟨ho', -⟩ | ⟨rfl, ho'⟩
      · exact .inl ((hold o sub').mp ho')
      · exact .inr ⟨rfl, Option.some.inj (ho'.symm.trans hsub')⟩
    · intro o k id ho
      refine (hput o _).mpr (.inl ⟨(hold o _).mpr ho, ?_⟩)
      rintro rfl
      obtain ⟨u, hu, huid, husub⟩ := ho
      have hut := h.task_unique hu ht huid
      subst hut
      rw [hnone] at husub
      cases husub
    · exact (hput _ _).mpr (.inr ⟨rfl, hsub'⟩)

private theorem Seated.turned (h : (⟨w, hs⟩ : Scene).Seated) {t : Task} (ht : t ∈ w.tasks)
    {W : World} (hW : Turned w t W) : (⟨W, hs⟩ : Scene).Seated := by
  cases hW with
  | cleared hd => exact h.left ht none
  | still hd hidle => exact h
  | leaves hd pubs o hl =>
    refine (h.offered pubs).left ?_ o
    rw [World.offered, World.tasks_onListeners]
    exact ht
  | moves hd stage isBusy gain hm => exact h.moves ht hm

private theorem Seated.started (h : (⟨w, hs⟩ : Scene).Seated) (name : String) (job : Job)
    (cancellation : Cancellation) :
    (⟨w.started name job cancellation, hs⟩ : Scene).Seated := by
  have hhas : ∀ o sub, (⟨w.started name job cancellation, hs⟩ : Scene).Has o sub ↔
      (⟨w, hs⟩ : Scene).Has o sub := by
    intro o sub
    cases o with
    | handle n => exact Iff.rfl
    | task id => simp [Has, HeldBy, World.started, or_and_right, exists_or, Task.subscription?]
  refine h.same ?_ ?_ h.hub (fun o sub ho _ => (hhas o sub).mp ho)
    (fun o key id ho => (hhas o _).mpr ho) (fun _ hseat => hseat) fun _ _ hon => hon
  · simp only [World.started, List.map_append, List.map_cons, List.map_nil]
    refine List.nodup_append.mpr ⟨h.ids, List.nodup_singleton _, fun a ha b hb => ?_⟩
    obtain ⟨t, ht, rfl⟩ := List.mem_map.mp ha
    rw [List.mem_singleton.mp hb]
    exact Nat.ne_of_lt (h.ids_lt t ht)
  · intro t ht
    rcases List.mem_append.mp ht with ht | ht
    · exact Nat.lt_succ_of_lt (h.ids_lt t ht)
    · rw [List.mem_singleton.mp ht]
      exact Nat.lt_succ_self _

private theorem Seated.listens (h : (⟨w, hs⟩ : Scene).Seated) {place : Option Nat} {l : Listeners}
    {sub : Subscription} (hl : w.listenersAt place = some l)
    (hseat : sub.seat? = some (place, l.next)) :
    (⟨w.enlisted place sub.key, hs ++ [some sub]⟩ : Scene).Seated := by
  have hframe := World.listenersOnly_onListeners place (·.add sub.key) w
  have htasks : (w.enlisted place sub.key).tasks = w.tasks := hframe.tasks
  refine h.gain (q := .handle hs.length) hl hseat (fun _ => rfl) ?_ ?_ ?_ ?_ ?_
  · rw [htasks]
    exact h.ids
  · rw [htasks, World.enlisted, hframe.nextId]
    exact h.ids_lt
  · intro o sub' ho _
    cases o with
    | task id =>
      left
      simpa only [Has, HeldBy, htasks] using ho
    | handle n =>
      change (hs ++ [some sub])[n]? = some (some sub') at ho
      rcases Nat.lt_trichotomy n hs.length with hn | rfl | hn
      · rw [List.getElem?_append_left hn] at ho
        exact .inl ho
      · right
        rw [List.getElem?_concat_length] at ho
        exact ⟨rfl, (Option.some.inj (Option.some.inj ho)).symm⟩
      · have hlen : (hs ++ [some sub]).length ≤ n := by
          rw [List.length_append, List.length_singleton]
          omega
        rw [List.getElem?_eq_none hlen] at ho
        cases ho
  · intro o key id ho
    cases o with
    | task id' => simpa only [Has, HeldBy, htasks] using ho
    | handle n =>
      have hn : n < hs.length := (List.getElem?_eq_some_iff.mp ho).1
      exact (List.getElem?_append_left hn).trans ho
  · exact List.getElem?_concat_length

private theorem Seated.releases (h : (⟨w, hs⟩ : Scene).Seated) {n : Nat} {sub : Subscription}
    (hn : hs[n]? = some (some sub)) : (⟨w.without sub, hs.set n none⟩ : Scene).Seated := by
  have hframe := World.listenersOnly_without w sub
  refine h.lose (q := .handle n) hn (fun _ => rfl) ?_ ?_ ?_
  · rw [hframe.tasks]
    exact h.ids
  · rw [hframe.tasks, hframe.nextId]
    exact h.ids_lt
  · intro o sub'
    cases o with
    | task id => simp [Has, HeldBy, hframe.tasks]
    | handle m =>
      simp only [Has, HeldBy, ne_eq, Owner.handle.injEq]
      by_cases hm : n = m
      · subst hm
        rw [List.getElem?_set_self (List.getElem?_eq_some_iff.mp hn).1]
        simp
      · rw [List.getElem?_set_ne hm]
        exact ⟨fun ho => ⟨ho, Ne.symm hm⟩, fun ho => ho.1⟩

theorem Seated.effect (h : (⟨w, hs⟩ : Scene).Seated) {a : Act} {W : World} {rs : List Runnable}
    (he : Effect w hs a W hs' rs) : (⟨W, hs'⟩ : Scene).Seated := by
  cases he with
  | aside a ha => exact h
  | starts name job cancellation => exact h.started name job cancellation
  | turns id t W ht hW => exact h.turned (List.mem_of_find?_eq_some ht) hW
  | carries id c hc hopen => exact (h.offered _).congr rfl (Nat.le_refl _) rfl rfl
  | cancels id t ht => exact h.putTask (List.mem_of_find?_eq_some ht) rfl (.inl rfl)
  | drops id t ht => exact h.putTask (List.mem_of_find?_eq_some ht) rfl (.inl rfl)
  | rings time => exact h.congr rfl (Nat.le_refl _) rfl rfl
  | publishes key payload => exact h.offered _
  | closes => exact h.disconnected
  | listens place key l sub hl hseat hkey => exact hkey ▸ h.listens hl hseat
  | receives n sub hn => exact h.taken sub
  | releases n sub hn => exact h.releases hn

theorem Seated.stage {s : Scene} (h : s.Seated) (a : Act) :
    (⟨s.stage a, s.handles⟩ : Scene).Seated := by
  obtain ⟨rs, hrs, -⟩ := stage_eq s a
  rw [hrs]
  exact Seated.congr (w := s.world) h rfl (Nat.le_refl _) rfl rfl

theorem Seated.act {s : Scene} (h : s.Seated) (a : Act) : (s.act a).Seated := by
  obtain ⟨W, rs, he, hleads, -⟩ := act_effect h a
  exact ((h.stage a).effect he).alike hleads.alike

/-- A task that watches has its listener for itself. -/
theorem Seated.own (h : (⟨w, hs⟩ : Scene).Seated) {t : Task} (ht : t ∈ w.tasks) {v : Vigil}
    (hst : t.stage = .watching v) {seat : Seat} (hseat : v.subscription.seat? = some seat) :
    w.Holds seat ∧ w.SoleOwner seat t.id := by
  have hhas : (⟨w, hs⟩ : Scene).Has (.task t.id) v.subscription :=
    ⟨t, ht, rfl, by rw [Task.subscription?, hst]⟩
  obtain ⟨l, hl, hid, -⟩ := h.seats _ _ seat hhas hseat
  refine ⟨⟨l, hl, hid⟩, fun u hu huseat => ?_⟩
  obtain ⟨sub, hsub, hsame⟩ := Option.bind_eq_some_iff.mp huseat
  have hown := h.unique (.task u.id) (.task t.id) sub _ seat ⟨u, hu, rfl, hsub⟩ hhas hsame hseat
  exact Owner.task.inj hown

theorem IsOpening.seated {s : Scene} (h : s.IsOpening) : s.Seated := by
  have hnot : ∀ o sub, ¬ s.Has o sub := by
    intro o sub ho
    cases o with
    | task id =>
      obtain ⟨t, ht, -⟩ := ho
      rw [h.tasks] at ht
      cases ht
    | handle n =>
      change s.handles[n]? = _ at ho
      rw [h.handles] at ho
      cases ho
  constructor
  · rw [h.tasks]
    exact List.nodup_nil
  · rw [h.tasks]
    exact fun t ht => by cases ht
  · exact h.inOrder
  · exact fun o sub _ ho => absurd ho (hnot o sub)
  · exact fun o _ sub _ _ ho => absurd ho (hnot o sub)
  · intro key id hid
    rw [h.registry] at hid
    cases hid

end Scene

end Roaming.Simulation
