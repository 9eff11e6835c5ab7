import Roaming.Proofs.Couriers

/-!
# What becomes of tasks and POSTs

An act leaves a task as it is, marks it, moves it or lets it go (`Fate`), and it moves one POST at
most. No task is there after an act that was not there before, unless it has just been started.
-/

set_option autoImplicit false
set_option relaxedAutoImplicit false

namespace Roaming.Simulation

/-- Whether an act is about a task. -/
def Act.Concerns (a : Act) (id : WorkId) : Prop :=
  a = .cancel id ∨ a = .drop id ∨ a = .move (.task id)

/-- What becomes of a task by an act that brings the exchanges from `w` to `W`. -/
inductive Fate (w W : World) (a : Act) (t : Task) : Option Task → Prop where
  | kept (hne : ¬ a.Concerns t.id) : Fate w W a t (some t)
  | cancelled (ha : a = .cancel t.id) : Fate w W a t (some { t with cancellation := .done })
  | dropped (ha : a = .drop t.id) : Fate w W a t (some { t with isDropped := true })
  | still (ha : a = .move (.task t.id)) (hd : (t.isDropped && !t.isBusy) = false) (h : t.IsIdle w)
      (hW : W = w) : Fate w W a t (some t)
  | moved (ha : a = .move (.task t.id)) (hd : (t.isDropped && !t.isBusy) = false) (stage : Stage)
      (isBusy : Bool) (gain : Gain) (hm : Moves w t stage isBusy gain)
      (hW : W = (w.gained t.id gain).putTask { t with stage, isBusy }) :
      Fate w W a t (some { t with stage, isBusy })
  | cleared (ha : a = .move (.task t.id)) (hd : (t.isDropped && !t.isBusy) = true)
      (hW : W = w.left t none) : Fate w W a t none
  | left (ha : a = .move (.task t.id)) (hd : (t.isDropped && !t.isBusy) = false)
      (pubs : List Publication) (o : Option Outcome) (hl : Leaves w t pubs o)
      (hW : W = (w.offered pubs).left t o) : Fate w W a t none

variable {w W : World} {hs hs' : List (Option Subscription)} {a : Act} {rs : List Runnable}

theorem Fate.id_eq {t t' : Task} (h : Fate w W a t (some t')) : t'.id = t.id := by
  cases h <;> rfl

theorem Fate.job_eq {t t' : Task} (h : Fate w W a t (some t')) :
    t'.name = t.name ∧ t'.job = t.job := by
  cases h <;> exact ⟨rfl, rfl⟩

/-- A task whose turn it is waits where it is, or moves on. -/
theorem Fate.of_turn {t t' : Task} (h : Fate w W (.move (.task t.id)) t (some t')) :
    (t.isDropped && !t.isBusy) = false ∧
      ((t.IsIdle w ∧ t' = t) ∨ ∃ stage isBusy gain, Moves w t stage isBusy gain ∧
        t' = { t with stage, isBusy } ∧
        W = (w.gained t.id gain).putTask { t with stage, isBusy }) := by
  cases h with
  | kept hne => exact absurd (.inr (.inr rfl)) hne
  | cancelled ha => cases ha
  | dropped ha => cases ha
  | still ha hd hidle hW => exact ⟨hd, .inl ⟨hidle, rfl⟩⟩
  | moved ha hd stage isBusy gain hm hW => exact ⟨hd, .inr ⟨stage, isBusy, gain, hm, rfl, hW⟩⟩

theorem World.mem_left {t u : Task} {o : Option Outcome} :
    u ∈ (w.left t o).tasks ↔ u ∈ w.tasks ∧ u.id ≠ t.id := by
  obtain ⟨w₀, hw, heq⟩ := left_eq t o w
  rw [heq, mem_gone, hw.tasks]

theorem World.tasks_gained (id : WorkId) (gain : Gain) : (w.gained id gain).tasks = w.tasks := by
  cases gain with
  | nothing => rfl
  | listener place key => exact tasks_onListeners place _ w
  | courier peer body alarm => cases alarm <;> rfl

/-- Every task has a fate. -/
theorem Effect.fate (hseated : (⟨w, hs⟩ : Scene).Seated) (he : Effect w hs a W hs' rs) {t : Task}
    (ht : t ∈ w.tasks) : ∃ o, Fate w W a t o ∧ match o with
      | some t' => t' ∈ W.tasks
      | none => ∀ u ∈ W.tasks, u.id ≠ t.id := by
  have hfind : ∀ {id : WorkId} {u : Task}, w.task? id = some u → u ∈ w.tasks ∧ u.id = id :=
    fun hu => ⟨List.mem_of_find?_eq_some hu, by simpa using List.find?_some hu⟩
  have hsame : ∀ {id : WorkId} {u : Task}, w.task? id = some u → id = t.id → u = t := by
    intro id u hu hid
    exact hseated.task_unique (hfind hu).1 ht ((hfind hu).2.trans hid)
  have hkept : ¬ a.Concerns t.id → t ∈ W.tasks → ∃ o, Fate w W a t o ∧ match o with
      | some t' => t' ∈ W.tasks
      | none => ∀ u ∈ W.tasks, u.id ≠ t.id := fun hne hmem => ⟨some t, .kept hne, hmem⟩
  have hput : ∀ {u t' : Task} {w' : World}, w'.tasks = w.tasks → t'.id = u.id → t.id ≠ u.id →
      t ∈ (w'.putTask t').tasks := by
    intro u t' w' htasks hid hne
    refine World.mem_putTask.mpr (.inl ⟨htasks ▸ ht, ?_⟩)
    rwa [hid]
  have hlisteners := he.listenersOnly
  cases he with
  | aside a ha =>
    refine hkept ?_ ht
    have hnone : ∀ {id : WorkId}, w.task? id = none → id ≠ t.id := by
      rintro id hnone rfl
      rw [hseated.task?_eq ht] at hnone
      cases hnone
    rintro (rfl | rfl | rfl) <;> exact hnone ha rfl
  | starts name job cancellation =>
    exact hkept (by rintro (h | h | h) <;> cases h) (List.mem_append_left _ ht)
  | carries id c hc hopen => exact hkept (by rintro (h | h | h) <;> cases h) ht
  | rings time => exact hkept (by rintro (h | h | h) <;> cases h) ht
  | cancels id u hu =>
    by_cases hid : id = t.id
    · have hut := hsame hu hid
      subst hut hid
      exact ⟨_, .cancelled rfl, World.mem_putTask.mpr (.inr ⟨rfl, _, ht, rfl⟩)⟩
    · refine hkept (by rintro (h | h | h) <;> cases h; exact hid rfl) (hput rfl rfl ?_)
      rw [(hfind hu).2]
      exact Ne.symm hid
  | drops id u hu =>
    by_cases hid : id = t.id
    · have hut := hsame hu hid
      subst hut hid
      exact ⟨_, .dropped rfl, World.mem_putTask.mpr (.inr ⟨rfl, _, ht, rfl⟩)⟩
    · refine hkept (by rintro (h | h | h) <;> cases h; exact hid rfl) (hput rfl rfl ?_)
      rw [(hfind hu).2]
      exact Ne.symm hid
  | turns id u W hu hW =>
    by_cases hid : id = t.id
    · have hut := hsame hu hid
      subst hut hid
      cases hW with
      | cleared hd => exact ⟨_, .cleared rfl hd rfl, fun u hu => (World.mem_left.mp hu).2⟩
      | still hd hidle => exact ⟨_, .still rfl hd hidle rfl, ht⟩
      | leaves hd pubs o hl =>
        exact ⟨_, .left rfl hd pubs o hl rfl, fun u hu => (World.mem_left.mp hu).2⟩
      | moves hd stage isBusy gain hm =>
        refine ⟨_, .moved rfl hd stage isBusy gain hm rfl, World.mem_putTask.mpr
          (.inr ⟨rfl, u, ?_, rfl⟩)⟩
        rw [World.tasks_gained]
        exact ht
    · have hne : t.id ≠ u.id := by
        rw [(hfind hu).2]
        exact Ne.symm hid
      refine hkept (by rintro (h | h | h) <;> cases h; exact hid rfl) ?_
      cases hW with
      | cleared hd => exact World.mem_left.mpr ⟨ht, hne⟩
      | still hd hidle => exact ht
      | leaves hd pubs o hl =>
        refine World.mem_left.mpr ⟨?_, hne⟩
        rw [World.offered, World.tasks_onListeners]
        exact ht
      | moves hd stage isBusy gain hm => exact hput (World.tasks_gained u.id gain) rfl hne
  | _ =>
    refine hkept (by rintro (h | h | h) <;> cases h) ?_
    rw [(hlisteners trivial).tasks]
    exact ht

private theorem Effect.ids (he : Effect w hs a W hs' rs) {t' : Task} (ht' : t' ∈ W.tasks) :
    (∃ t ∈ w.tasks, t.id = t'.id) ∨ ∃ name job cancellation, a = .start name job cancellation ∧
      t' = { id := w.nextId, name, job, cancellation } := by
  have hput : ∀ {u : Task} {w' : World}, w'.tasks = w.tasks → t' ∈ (w'.putTask u).tasks →
      ∃ t ∈ w.tasks, t.id = t'.id := by
    intro u w' htasks hmem
    have hid : t'.id ∈ (w'.putTask u).tasks.map (·.id) := List.mem_map_of_mem hmem
    rw [World.ids_putTask, htasks] at hid
    exact List.mem_map.mp hid
  have hlisteners := he.listenersOnly
  cases he with
  | aside a ha => exact .inl ⟨t', ht', rfl⟩
  | starts name job cancellation =>
    rcases List.mem_append.mp ht' with ht' | ht'
    · exact .inl ⟨t', ht', rfl⟩
    · exact .inr ⟨name, job, cancellation, rfl, List.mem_singleton.mp ht'⟩
  | turns id u W hu hW =>
    left
    cases hW with
    | cleared hd => exact ⟨t', (World.mem_left.mp ht').1, rfl⟩
    | still hd hidle => exact ⟨t', ht', rfl⟩
    | leaves hd pubs o hl =>
      have hmem := (World.mem_left.mp ht').1
      rw [World.offered, World.tasks_onListeners] at hmem
      exact ⟨t', hmem, rfl⟩
    | moves hd stage isBusy gain hm => exact hput (World.tasks_gained u.id gain) ht'
  | carries id c hc hopen => exact .inl ⟨t', ht', rfl⟩
  | cancels id u hu => exact .inl (hput rfl ht')
  | drops id u hu => exact .inl (hput rfl ht')
  | rings time => exact .inl ⟨t', ht', rfl⟩
  | _ =>
    rw [(hlisteners trivial).tasks] at ht'
    exact .inl ⟨t', ht', rfl⟩

/-- A task that is there has come there by its fate, or has just been started. -/
theorem Effect.origin (hseated : (⟨w, hs⟩ : Scene).Seated) (he : Effect w hs a W hs' rs) {t' : Task}
    (ht' : t' ∈ W.tasks) : (∃ t ∈ w.tasks, Fate w W a t (some t')) ∨
      ∃ name job cancellation, a = .start name job cancellation ∧
        t' = { id := w.nextId, name, job, cancellation } := by
  rcases he.ids ht' with ⟨t, ht, hid⟩ | hnew
  · left
    obtain ⟨o, hfate, hmem⟩ := he.fate hseated ht
    cases o with
    | none => exact absurd hid.symm (hmem t' ht')
    | some u =>
      have hut : u = t' := (hseated.effect he).task_unique hmem ht' (hfate.id_eq.trans hid)
      subst hut
      exact ⟨t, ht, hfate⟩
  · exact .inr hnew

/-! ### POSTs -/

theorem World.couriers_left (t : Task) (o : Option Outcome) :
    (w.left t o).couriers = w.couriers := by
  obtain ⟨w₀, hw, heq⟩ := left_eq t o w
  rw [heq]
  exact hw.couriers

/-- A POST stays as it is, or is moved while it has not ended; its end wakes who waits for it. -/
theorem Effect.courier_fate (htidy : w.Tidy) (he : Effect w hs a W hs' rs) {c : Courier}
    (hc : c ∈ w.couriers) :
    (c ∈ W.couriers ∧ (a = .move (.post c.id) → c.post.ending?.isSome)) ∨
      (a = .move (.post c.id) ∧ c.post.ending? = none ∧
        { c with post := w.advanced c.post } ∈ W.couriers ∧
        ((w.advanced c.post).ending?.isSome → .task c.waiter ∈ rs)) := by
  have hkept : W.couriers = w.couriers → (∀ id, a ≠ .move (.post id)) →
      (c ∈ W.couriers ∧ (a = .move (.post c.id) → c.post.ending?.isSome)) :=
    fun hsame hne => ⟨hsame ▸ hc, fun ha => absurd ha (hne c.id)⟩
  have hlisteners := he.listenersOnly
  cases he with
  | aside a ha =>
    refine .inl ⟨hc, ?_⟩
    rintro rfl
    exact ha c (htidy.courier?_eq hc)
  | starts name job cancellation => exact .inl (hkept rfl (by simp))
  | turns id u W hu hW =>
    left
    cases hW with
    | cleared hd => exact hkept (World.couriers_left u none) (by simp)
    | still hd hidle => exact hkept rfl (by simp)
    | leaves hd pubs o hl =>
      exact hkept ((World.couriers_left u o).trans (World.couriers_onListeners _ _ _)) (by simp)
    | moves hd stage isBusy gain hm =>
      refine ⟨?_, by simp⟩
      cases gain with
      | nothing => exact hc
      | listener place key =>
        change c ∈ (w.onListeners place _).couriers
        rw [World.couriers_onListeners]
        exact hc
      | courier peer body alarm => cases alarm <;> exact List.mem_append_left _ hc
  | carries id d hd hopen =>
    have hdmem : d ∈ w.couriers := List.mem_of_find?_eq_some hd
    have hdid : d.id = id := by simpa using List.find?_some hd
    by_cases hcd : c.id = d.id
    · have hsame := htidy.courier_unique hc hdmem hcd
      subst hsame
      refine .inr ⟨by rw [hdid], hopen, List.mem_map.mpr ⟨c, hc, if_pos rfl⟩, fun hend => ?_⟩
      rw [if_pos hend]
      exact List.mem_singleton_self _
    · refine .inl ⟨List.mem_map.mpr ⟨c, hc, if_neg hcd⟩, fun ha => ?_⟩
      cases ha
      exact absurd hdid.symm hcd
  | cancels id u hu => exact .inl (hkept rfl (by simp))
  | drops id u hu => exact .inl (hkept rfl (by simp))
  | rings time => exact .inl (hkept rfl (by simp))
  | _ => exact .inl (hkept (hlisteners trivial).couriers (by simp))

/-- A POST that is there was there before, on its way from the same task with the same body; or it
has just been handed out. -/
theorem Effect.courier_origin (he : Effect w hs a W hs' rs) {c' : Courier} (hc' : c' ∈ W.couriers) :
    (∃ c ∈ w.couriers, c'.id = c.id ∧ c'.waiter = c.waiter ∧ c'.post.peer = c.post.peer ∧
        c'.post.body = c.post.body) ∨
      ∃ t ∈ w.tasks, ∃ stage isBusy peer body alarm, a = .move (.task t.id) ∧
        Moves w t stage isBusy (.courier peer body alarm) ∧ c' = ⟨w.nextId, t.id,
        { peer, body }⟩ := by
  have hkept : W.couriers = w.couriers → ∃ c ∈ w.couriers, c'.id = c.id ∧ c'.waiter = c.waiter ∧
      c'.post.peer = c.post.peer ∧ c'.post.body = c.post.body :=
    fun hsame => ⟨c', hsame ▸ hc', rfl, rfl, rfl, rfl⟩
  have hlisteners := he.listenersOnly
  cases he with
  | aside a ha => exact .inl (hkept rfl)
  | starts name job cancellation => exact .inl (hkept rfl)
  | turns id u W hu hW =>
    cases hW with
    | cleared hd => exact .inl (hkept (World.couriers_left u none))
    | still hd hidle => exact .inl (hkept rfl)
    | leaves hd pubs o hl =>
      exact .inl (hkept ((World.couriers_left u o).trans (World.couriers_onListeners _ _ _)))
    | moves hd stage isBusy gain hm =>
      cases gain with
      | nothing => exact .inl (hkept rfl)
      | listener place key => exact .inl (hkept (World.couriers_onListeners _ _ _))
      | courier peer body alarm =>
        have hmem : c' ∈ w.couriers ++ [⟨w.nextId, u.id, { peer, body }⟩] := by
          cases alarm <;> exact hc'
        have huid : u.id = id := by simpa using List.find?_some hu
        rcases List.mem_append.mp hmem with hmem | hmem
        · exact .inl ⟨c', hmem, rfl, rfl, rfl, rfl⟩
        · exact .inr ⟨u, List.mem_of_find?_eq_some hu, stage, isBusy, peer, body,
            alarm, by rw [huid], hm, List.mem_singleton.mp hmem⟩
  | carries id d hd hopen =>
    left
    obtain ⟨d₀, hd₀, rfl⟩ := List.mem_map.mp hc'
    obtain ⟨hpeer, hbody⟩ := World.peer_advanced d.post w
    split
    · exact ⟨d, List.mem_of_find?_eq_some hd, rfl, rfl, hpeer, hbody⟩
    · exact ⟨d₀, hd₀, rfl, rfl, rfl, rfl⟩
  | cancels id u hu => exact .inl (hkept rfl)
  | drops id u hu => exact .inl (hkept rfl)
  | rings time => exact .inl (hkept rfl)
  | _ => exact .inl (hkept (hlisteners trivial).couriers)

/-! ### The clock, the numbers and the outcomes -/

/-- Whether the clock, the peers and the places of links stay as they are, and no number is
given out again. -/
structure World.Onward (w W : World) : Prop where
  places : W.stations.length = w.stations.length
  now : W.now = w.now
  peers : W.peers = w.peers
  nextId_le : w.nextId ≤ W.nextId

theorem World.Onward.refl (w : World) : w.Onward w := ⟨rfl, rfl, rfl, Nat.le_refl _⟩

theorem World.Onward.trans {w w₁ w₂ : World} (h : w.Onward w₁) (h' : w₁.Onward w₂) :
    w.Onward w₂ :=
  ⟨h'.places.trans h.places, h'.now.trans h.now, h'.peers.trans h.peers,
    Nat.le_trans h.nextId_le h'.nextId_le⟩

theorem World.ListenersOnly.onward (h : w.ListenersOnly W) : w.Onward W :=
  ⟨h.places, h.now, h.peers, Nat.le_of_eq h.nextId.symm⟩

theorem World.onward_left (t : Task) (o : Option Outcome) (w : World) : w.Onward (w.left t o) := by
  obtain ⟨w₀, hw, heq⟩ := left_eq t o w
  rw [heq]
  exact hw.onward.trans ⟨rfl, rfl, rfl, Nat.le_refl _⟩

theorem World.onward_gained (id : WorkId) (gain : Gain) : w.Onward (w.gained id gain) := by
  cases gain with
  | nothing => exact .refl w
  | listener place key => exact (listenersOnly_onListeners place _ w).onward
  | courier peer body alarm => cases alarm <;> exact ⟨rfl, rfl, rfl, Nat.le_succ _⟩

/-- Only a ring moves the clock. -/
theorem Effect.onward (he : Effect w hs a W hs' rs) : (w.Onward W ∧ ∀ time, a ≠ .ring time) ∨
    ∃ time, a = .ring time ∧ W = w.rung time ∧
      rs = (w.alarms.filter fun a => a.due ≤ time).map Alarm.owner := by
  have hlisteners := he.listenersOnly
  cases he with
  | aside a ha =>
    refine .inl ⟨.refl w, ?_⟩
    rintro time rfl
    exact ha
  | starts name job cancellation => exact .inl ⟨⟨rfl, rfl, rfl, Nat.le_succ _⟩, by simp⟩
  | turns id u W hu hW =>
    refine .inl ⟨?_, by simp⟩
    cases hW with
    | cleared hd => exact World.onward_left u none w
    | still hd hidle => exact .refl w
    | leaves hd pubs o hl =>
      have hoffered : w.Onward (w.offered pubs) := (World.listenersOnly_onListeners none _ w).onward
      exact hoffered.trans (World.onward_left u o _)
    | moves hd stage isBusy gain hm =>
      exact (World.onward_gained u.id gain).trans ⟨rfl, rfl, rfl, Nat.le_refl _⟩
  | carries id d hd hopen => exact .inl ⟨⟨rfl, rfl, rfl, Nat.le_refl _⟩, by simp⟩
  | cancels id u hu => exact .inl ⟨⟨rfl, rfl, rfl, Nat.le_refl _⟩, by simp⟩
  | drops id u hu => exact .inl ⟨⟨rfl, rfl, rfl, Nat.le_refl _⟩, by simp⟩
  | rings time => exact .inr ⟨time, rfl, rfl, rfl⟩
  | _ => exact .inl ⟨(hlisteners trivial).onward, by simp⟩

/-- Numbers are not given out again. -/
theorem Effect.nextId_le (he : Effect w hs a W hs' rs) : w.nextId ≤ W.nextId := by
  rcases he.onward with ⟨h, -⟩ | ⟨time, -, rfl, -⟩
  · exact h.nextId_le
  · exact Nat.le_refl _

/-- No link is new, and none is gone. -/
theorem Effect.places (he : Effect w hs a W hs' rs) : W.stations.length = w.stations.length := by
  rcases he.onward with ⟨h, -⟩ | ⟨time, -, rfl, -⟩
  · exact h.places
  · rfl

/-- The peers stay as they are. -/
theorem Effect.peers (he : Effect w hs a W hs' rs) : W.peers = w.peers := by
  rcases he.onward with ⟨h, -⟩ | ⟨time, -, rfl, -⟩
  · exact h.peers
  · rfl

theorem World.ended_left (t : Task) (o : Option Outcome) :
    (w.left t o).ended = w.ended ++ (o.map fun o => ⟨t.id, t.name, o⟩).toList := by
  obtain ⟨w₀, hw, heq⟩ := left_eq t o w
  rw [heq, ← hw.ended]
  rfl

theorem World.ended_gained (id : WorkId) (gain : Gain) : (w.gained id gain).ended = w.ended := by
  cases gain with
  | nothing => rfl
  | listener place key => exact ended_onListeners place _ w
  | courier peer body alarm => cases alarm <;> rfl

/-- Only a task that leaves comes to an outcome. -/
theorem Effect.ended (he : Effect w hs a W hs' rs) : W.ended = w.ended ∨
    ∃ t ∈ w.tasks, ∃ pubs o, a = .move (.task t.id) ∧ Leaves w t pubs (some o) ∧
      W.ended = w.ended ++ [⟨t.id, t.name, o⟩] ∧ ∀ u ∈ W.tasks, u.id ≠ t.id := by
  have hlisteners := he.listenersOnly
  cases he with
  | aside a ha => exact .inl rfl
  | starts name job cancellation => exact .inl rfl
  | turns id u W hu hW =>
    have huid : u.id = id := by simpa using List.find?_some hu
    cases hW with
    | cleared hd => exact .inl ((World.ended_left u none).trans (List.append_nil _))
    | still hd hidle => exact .inl rfl
    | leaves hd pubs o hl =>
      have hended : ((w.offered pubs).left u o).ended =
          w.ended ++ (o.map fun o => ⟨u.id, u.name, o⟩).toList := by
        rw [World.ended_left, World.offered, World.ended_onListeners]
      cases o with
      | none => exact .inl (hended.trans (List.append_nil _))
      | some o =>
        exact .inr ⟨u, List.mem_of_find?_eq_some hu, pubs, o, by rw [huid], hl, hended,
          fun v hv => (World.mem_left.mp hv).2⟩
    | moves hd stage isBusy gain hm => exact .inl (World.ended_gained u.id gain)
  | carries id d hd hopen => exact .inl rfl
  | cancels id u hu => exact .inl rfl
  | drops id u hu => exact .inl rfl
  | rings time => exact .inl rfl
  | _ => exact .inl (hlisteners trivial).ended

/-- Whether the tasks that have ended are gone, and their numbers with them. -/
def World.Settled (w : World) : Prop :=
  ∀ x ∈ w.ended, x.task < w.nextId ∧ ∀ t ∈ w.tasks, t.id ≠ x.task

theorem World.Settled.effect (h : w.Settled) (hseated : (⟨w, hs⟩ : Scene).Seated)
    (he : Effect w hs a W hs' rs) : W.Settled := by
  have hold : ∀ x ∈ w.ended, x.task < W.nextId ∧ ∀ t ∈ W.tasks, t.id ≠ x.task := by
    intro x hx
    obtain ⟨hlt, hgone⟩ := h x hx
    refine ⟨Nat.lt_of_lt_of_le hlt he.nextId_le, fun t' ht' => ?_⟩
    rcases he.origin hseated ht' with ⟨t, ht, hfate⟩ | ⟨name, job, cancellation, -, rfl⟩
    · rw [hfate.id_eq]
      exact hgone t ht
    · exact Ne.symm (Nat.ne_of_lt hlt)
  intro x hx
  rcases he.ended with hsame | ⟨t, ht, pubs, o, -, -, hmore, hgone⟩
  · exact hold x (hsame ▸ hx)
  · rw [hmore] at hx
    rcases List.mem_append.mp hx with hx | hx
    · exact hold x hx
    · rw [List.mem_singleton.mp hx]
      exact ⟨Nat.lt_of_lt_of_le (hseated.ids_lt t ht) he.nextId_le, hgone⟩

end Roaming.Simulation
