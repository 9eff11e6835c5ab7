import Roaming.Proofs.Inboxes

/-!
# What a listener has received

The listener of a task keeps its inbox and what is in it, on whatever medium it is, until the task
has gone (`World.Retains`): other holders read and release listeners of their own. So a payload that
can be seen is still seen later. With the task its inbox goes for good (`World.Vacated`).
-/

set_option autoImplicit false
set_option relaxedAutoImplicit false

namespace Roaming.Simulation

open Roaming.Text (Bytes)

namespace World

/-- Whether the inbox at a seat, if there is one, is still there with what was in it. -/
def Retains (w w' : World) (seat : Seat) : Prop :=
  ∀ l, w.listenersAt seat.1 = some l → l.Holds seat.2 →
    ∃ l', w'.listenersAt seat.1 = some l' ∧ l'.Holds seat.2 ∧ l.inbox seat.2 <+: l'.inbox seat.2

variable {w w₁ w₂ : World} {seat : Seat}

theorem Retains.trans (h : w.Retains w₁ seat) (h' : w₁.Retains w₂ seat) : w.Retains w₂ seat := by
  intro l hl hid
  obtain ⟨l₁, hl₁, hid₁, hkept₁⟩ := h l hl hid
  obtain ⟨l₂, hl₂, hid₂, hkept₂⟩ := h' l₁ hl₁ hid₁
  exact ⟨l₂, hl₂, hid₂, hkept₁.trans hkept₂⟩

theorem retains_of_same (hhub : w₁.hub = w.hub) (hstations : w₁.stations = w.stations) :
    w.Retains w₁ seat := by
  intro l hl hid
  refine ⟨l, ?_, hid, List.prefix_refl _⟩
  rw [← hl]
  unfold listenersAt
  rw [hhub, hstations]

theorem Alike.retains (h : w.Alike w₁) (seat : Seat) : w.Retains w₁ seat := by
  obtain ⟨place, id⟩ := seat
  intro l hl hid
  cases place with
  | none =>
    cases hl
    exact ⟨_, rfl, by rwa [h.hub], by simp only [h.hub, List.prefix_refl]⟩
  | some i =>
    obtain ⟨st, hst, rfl⟩ := Option.map_eq_some_iff.mp hl
    obtain ⟨st', hst', hextends⟩ := h.stations i st hst
    refine ⟨st'.link.listeners, ?_, hextends.listeners.holds id hid,
      hextends.listeners.inbox id hid⟩
    rw [listenersAt, hst', Option.map_some]

/-- A change of listeners that keeps one inbox. -/
theorem retains_onListeners {place : Option Nat} {f : Listeners → Listeners}
    (hf : ∀ l : Listeners, seat.1 = place → l.Holds seat.2 →
      (f l).Holds seat.2 ∧ l.inbox seat.2 <+: (f l).inbox seat.2) :
    w.Retains (w.onListeners place f) seat := by
  intro l hl hid
  have hat := listenersAt_onListeners place f w seat.1
  rw [hl] at hat
  by_cases hp : seat.1 = place
  · rw [if_pos hp] at hat
    exact ⟨f l, hat, hf l hp hid⟩
  · rw [if_neg hp] at hat
    exact ⟨l, hat, hid, List.prefix_refl _⟩

/-- A change of listeners that only adds to them. -/
theorem retains_of_extends {place : Option Nat} {f : Listeners → Listeners}
    (hf : ∀ l : Listeners, l.Extends (f l)) : w.Retains (w.onListeners place f) seat :=
  retains_onListeners fun l _ hid => ⟨(hf l).holds _ hid, (hf l).inbox _ hid⟩

theorem retains_offered (pubs : List Publication) : w.Retains (w.offered pubs) seat := by
  refine retains_of_extends fun l => ?_
  induction pubs generalizing l with
  | nil => exact .refl l
  | cons pub pubs ih => exact (l.extends_offer pub.key pub.payload).trans (ih _)

theorem retains_enlisted (place : Option Nat) (key : Key) :
    w.Retains (w.enlisted place key) seat := by
  refine retains_onListeners fun l _ hid => ⟨Listeners.holds_add.mpr (.inl hid), ?_⟩
  simp only [Listeners.inbox_add hid, List.prefix_refl]

/-- The release of another listener. -/
theorem retains_without {sub : Subscription} (hne : sub.seat? ≠ some seat) :
    w.Retains (w.without sub) seat := by
  unfold without
  split
  · next place id hseat =>
    refine retains_onListeners fun l hp hid => ?_
    have hother : seat.2 ≠ id := by
      rintro rfl
      exact hne (hseat.trans (by rw [← hp]))
    refine ⟨Listeners.holds_release.mpr ⟨hid, hother⟩, ?_⟩
    simp only [Listeners.inbox_release hother, List.prefix_refl]
  · exact retains_of_same rfl rfl

/-- A look into another inbox. -/
theorem retains_taken {sub : Subscription} (hne : sub.seat? ≠ some seat) :
    w.Retains (w.taken sub) seat := by
  unfold taken
  split
  · next place id hseat =>
    refine retains_onListeners fun l hp hid => ⟨Listeners.holds_take.mpr hid, ?_⟩
    have hother : seat.2 ≠ id := by
      rintro rfl
      exact hne (hseat.trans (by rw [← hp]))
    simp only [Listeners.inbox_take, if_neg hother, List.prefix_refl]
  · exact retains_of_same rfl rfl

theorem retains_left {t : Task} (o : Option Outcome)
    (hne : ∀ sub, t.subscription? = some sub → sub.seat? ≠ some seat) :
    w.Retains (w.left t o) seat := by
  unfold left
  split
  · next sub hsub => exact (retains_without (hne sub hsub)).trans (retains_of_same rfl rfl)
  · exact retains_of_same rfl rfl

theorem retains_gained (id : WorkId) (gain : Gain) : w.Retains (w.gained id gain) seat := by
  cases gain with
  | nothing => exact retains_of_same rfl rfl
  | listener place key => exact retains_enlisted place key
  | courier peer body alarm => cases alarm <;> exact retains_of_same rfl rfl

/-- Whether the inbox that was at a seat has gone, and none will come there. -/
def Vacated (w : World) (seat : Seat) : Prop :=
  ∃ l, w.listenersAt seat.1 = some l ∧ seat.2 < l.next ∧ ¬ l.Holds seat.2

theorem Vacated.of_same (h : w.Vacated seat) (hhub : w₁.hub = w.hub)
    (hstations : w₁.stations = w.stations) : w₁.Vacated seat := by
  obtain ⟨l, hl, hrest⟩ := h
  refine ⟨l, ?_, hrest⟩
  rw [← hl]
  unfold listenersAt
  rw [hhub, hstations]

theorem Vacated.alike (h : w.Vacated seat) (ha : w.Alike w₁) : w₁.Vacated seat := by
  obtain ⟨place, id⟩ := seat
  obtain ⟨l, hl, hlt, hgone⟩ := h
  cases place with
  | none =>
    cases hl
    exact ⟨_, rfl, by rwa [ha.hub], by rwa [ha.hub]⟩
  | some i =>
    obtain ⟨st, hst, rfl⟩ := Option.map_eq_some_iff.mp hl
    obtain ⟨st', hst', hextends⟩ := ha.stations i st hst
    refine ⟨st'.link.listeners, ?_, Nat.lt_of_lt_of_le hlt hextends.listeners.next_le,
      fun hid => hgone (hextends.listeners.held id hlt hid)⟩
    rw [listenersAt, hst', Option.map_some]

/-- A change of listeners that gives out no id again. -/
theorem Vacated.onListeners (h : w.Vacated seat) (place : Option Nat) {f : Listeners → Listeners}
    (hf : ∀ l : Listeners, l.next ≤ (f l).next ∧ ∀ id, id < l.next → (f l).Holds id → l.Holds id) :
    (w.onListeners place f).Vacated seat := by
  obtain ⟨l, hl, hlt, hgone⟩ := h
  have hat := listenersAt_onListeners place f w seat.1
  rw [hl] at hat
  split at hat
  · exact ⟨f l, hat, Nat.lt_of_lt_of_le hlt (hf l).1, fun hid => hgone ((hf l).2 _ hlt hid)⟩
  · exact ⟨l, hat, hlt, hgone⟩

theorem Vacated.offered (h : w.Vacated seat) (pubs : List Publication) :
    (w.offered pubs).Vacated seat :=
  h.onListeners none fun l => ⟨Nat.le_of_eq (Listeners.next_offerAll pubs l).symm,
    fun _ _ hid => Listeners.holds_offerAll.mp hid⟩

theorem Vacated.enlisted (h : w.Vacated seat) (place : Option Nat) (key : Key) :
    (w.enlisted place key).Vacated seat :=
  h.onListeners place fun _ => ⟨Nat.le_succ _, fun _ hlt hid =>
    (Listeners.holds_add.mp hid).resolve_right (Nat.ne_of_lt hlt)⟩

theorem Vacated.without (h : w.Vacated seat) (sub : Subscription) :
    (w.without sub).Vacated seat := by
  unfold World.without
  split
  · exact h.onListeners _ fun _ =>
      ⟨Nat.le_refl _, fun _ _ hid => (Listeners.holds_release.mp hid).1⟩
  · exact h

theorem Vacated.taken (h : w.Vacated seat) (sub : Subscription) : (w.taken sub).Vacated seat := by
  unfold World.taken
  split
  · exact h.onListeners _ fun _ => ⟨Nat.le_refl _, fun _ _ hid => Listeners.holds_take.mp hid⟩
  · exact h

theorem Vacated.left (h : w.Vacated seat) (t : Task) (o : Option Outcome) :
    (w.left t o).Vacated seat := by
  unfold World.left
  split
  · exact (h.without _).of_same rfl rfl
  · exact h.of_same rfl rfl

theorem Vacated.gained (h : w.Vacated seat) (id : WorkId) (gain : Gain) :
    (w.gained id gain).Vacated seat := by
  cases gain with
  | nothing => exact h
  | listener place key => exact h.enlisted place key
  | courier peer body alarm => cases alarm <;> exact h.of_same rfl rfl

/-- The release of a listener takes its inbox away. -/
theorem vacated_without (h : w.Seats seat) {sub : Subscription} (hseat : sub.seat? = some seat) :
    (w.without sub).Vacated seat := by
  obtain ⟨l, hl, -, hlt⟩ := h
  have hat := listenersAt_onListeners seat.1 (·.release sub.key seat.2) w seat.1
  rw [if_pos rfl, hl, Option.map_some] at hat
  unfold without
  rw [hseat]
  exact ⟨_, hat, hlt, fun hid => (Listeners.holds_release.mp hid).2 rfl⟩

end World

/-- What one task has at a seat, it keeps while it is there. -/
private theorem Effect.retains {w W : World} {hs hs' : List (Option Subscription)} {a : Act}
    {rs : List Runnable} (he : Effect w hs a W hs' rs) {seat : Seat} {id : WorkId}
    (hsole : ∀ o sub, HeldBy w.tasks hs sub o → sub.seat? = some seat → o = .task id)
    (hthere : ∃ u ∈ W.tasks, u.id = id) : w.Retains W seat := by
  obtain ⟨x, hx, hxid⟩ := hthere
  have hgoes : ∀ {t : Task} {w₁ : World} {o : Option Outcome}, t ∈ w.tasks →
      x ∈ (w₁.left t o).tasks → ∀ sub, t.subscription? = some sub → sub.seat? ≠ some seat := by
    intro t w₁ o ht hstays sub hsub hseat
    have hown := Owner.task.inj (hsole (.task t.id) sub ⟨t, ht, rfl, hsub⟩ hseat)
    exact (World.mem_left.mp hstays).2 (hxid.trans hown.symm)
  have hhandle : ∀ {n : Nat} {sub : Subscription}, hs[n]? = some (some sub) →
      sub.seat? ≠ some seat := fun hn hseat => by cases hsole (.handle _) _ hn hseat
  cases he with
  | aside a ha => exact World.retains_of_same rfl rfl
  | starts name job cancellation => exact World.retains_of_same rfl rfl
  | turns i t W ht hW =>
    have hmem : t ∈ w.tasks := List.mem_of_find?_eq_some ht
    cases hW with
    | cleared hd => exact World.retains_left none (hgoes hmem hx)
    | still hd hidle => exact World.retains_of_same rfl rfl
    | leaves hd pubs o hl =>
      exact (World.retains_offered pubs).trans (World.retains_left o (hgoes hmem hx))
    | moves hd stage isBusy gain hm =>
      exact (World.retains_gained t.id gain).trans (World.retains_of_same rfl rfl)
  | carries i c hc hopen => exact (World.retains_offered _).trans (World.retains_of_same rfl rfl)
  | cancels i t ht => exact World.retains_of_same rfl rfl
  | drops i t ht => exact World.retains_of_same rfl rfl
  | rings time => exact World.retains_of_same rfl rfl
  | publishes key payload => exact World.retains_offered _
  | closes => exact World.retains_of_extends Listeners.extends_disconnect
  | listens place key l sub hl hseat hkey => exact World.retains_enlisted place key
  | receives n sub hn => exact World.retains_taken (hhandle hn)
  | releases n sub hn => exact World.retains_without (hhandle hn)

/-- What has gone stays away. -/
private theorem Effect.vacated {w W : World} {hs hs' : List (Option Subscription)} {a : Act}
    {rs : List Runnable} (he : Effect w hs a W hs' rs) {seat : Seat} (h : w.Vacated seat) :
    W.Vacated seat := by
  cases he with
  | aside a ha => exact h
  | starts name job cancellation => exact h.of_same rfl rfl
  | turns i t W ht hW =>
    cases hW with
    | cleared hd => exact h.left t none
    | still hd hidle => exact h
    | leaves hd pubs o hl => exact (h.offered pubs).left t o
    | moves hd stage isBusy gain hm => exact (h.gained t.id gain).of_same rfl rfl
  | carries i c hc hopen => exact (h.offered _).of_same rfl rfl
  | cancels i t ht => exact h.of_same rfl rfl
  | drops i t ht => exact h.of_same rfl rfl
  | rings time => exact h.of_same rfl rfl
  | publishes key payload => exact h.offered _
  | closes => exact h.onListeners none fun _ => ⟨Nat.le_refl _, fun _ _ hid => hid⟩
  | listens place key l sub hl hseat hkey => exact h.enlisted place key
  | receives n sub hn => exact h.taken sub
  | releases n sub hn => exact h.without sub

namespace Scene

variable {s : Scene}

/-- A payload that a task can see is there as long as the task is. -/
theorem Sound.message_act (h : s.Sound) {t : Task} (ht : t ∈ s.world.tasks) {sub : Subscription}
    (hsub : t.subscription? = some sub) {p : Bytes} (hsight : s.world.sight sub = .message p)
    {a : Act} {u : Task} (hu : u ∈ (s.act a).world.tasks) (hid : u.id = t.id) :
    (s.act a).world.sight sub = .message p := by
  cases hseat : sub.seat? with
  | none =>
    cases sub with
    | puppet name key script => exact hsight
    | hub key i => cases hseat
    | link i key id => cases hseat
  | some seat =>
    obtain ⟨l, hl, hholds, -⟩ := h.seated.seats (.task t.id) sub seat ⟨t, ht, rfl, hsub⟩ hseat
    obtain ⟨W, rs, he, hleads, -⟩ := act_effect h.seated a
    obtain ⟨rs₀, hrs, -⟩ := stage_eq s a
    have hsole : ∀ o sub', HeldBy (s.stage a).tasks s.handles sub' o → sub'.seat? = some seat →
        o = .task t.id := by
      intro o sub' ho hseat'
      rw [hrs] at ho
      exact h.seated.unique o (.task t.id) sub' sub seat ho ⟨t, ht, rfl, hsub⟩ hseat' hseat
    have hstage : s.world.Retains (s.stage a) seat := by
      rw [hrs]
      exact World.retains_of_same rfl rfl
    have hkept := (hstage.trans (he.retains hsole ⟨u, hleads.alike.tasks ▸ hu, hid⟩)).trans
      (hleads.alike.retains seat)
    obtain ⟨l', hl', -, more, hmore⟩ := hkept l hl hholds
    rw [World.sight_eq hseat hl] at hsight
    rw [World.sight_eq hseat hl']
    obtain ⟨rest, hinbox⟩ := Listeners.sight_eq_message.mp hsight
    exact Listeners.sight_eq_message.mpr ⟨rest ++ more, by rw [← hmore, hinbox]; rfl⟩

/-- It has its listener as long. -/
theorem Sound.message_after (h : s.Sound) {t : Task} (ht : t ∈ s.world.tasks) {sub : Subscription}
    (hsub : t.subscription? = some sub) {p : Bytes} (hsight : s.world.sight sub = .message p)
    {acts : List Act} {u : Task} (hu : u ∈ (s.after acts).world.tasks) (hid : u.id = t.id) :
    u.subscription? = some sub ∧ (s.after acts).world.sight sub = .message p := by
  induction acts generalizing s t with
  | nil =>
    rw [h.seated.task_unique hu ht hid]
    exact ⟨hsub, hsight⟩
  | cons a acts ih =>
    have hgone : (∀ x ∈ (s.act a).world.tasks, x.id ≠ t.id) → False := fun hgone =>
      ((h.act a).gone_after (h.lt_nextId ht a) hgone acts).1 u hu hid
    cases h.leaving ht a with
    | stays t' W hfate hW ht' ho =>
      have hid' := hfate.id_eq
      exact ih (h.act a) ht' (hfate.subscription_eq hsub) (h.message_act ht hsub hsight ht' hid') hu
        (hid.trans hid'.symm)
    | leaves pubs o ha hd hl hleft ho => exact (hgone hleft).elim
    | cleared ha hd hleft ho => exact (hgone hleft).elim

/-- With a task its listener goes. -/
theorem Sound.vacated_act (h : s.Sound) {t : Task} (ht : t ∈ s.world.tasks) {sub : Subscription}
    (hsub : t.subscription? = some sub) {seat : Seat} (hseat : sub.seat? = some seat) {a : Act}
    (hgone : ∀ u ∈ (s.act a).world.tasks, u.id ≠ t.id) : (s.act a).world.Vacated seat := by
  obtain ⟨W, rs, he, hleads, -⟩ := act_effect h.seated a
  obtain ⟨rs₀, hrs, -⟩ := stage_eq s a
  have hseats : (s.stage a).Seats seat := by
    obtain ⟨l, hl, hrest⟩ := h.seated.seats (.task t.id) sub seat ⟨t, ht, rfl, hsub⟩ hseat
    rw [hrs]
    exact ⟨l, hl, hrest⟩
  have hleft : ∀ (w : World) (o : Option Outcome), w.Seats seat → (w.left t o).Vacated seat := by
    intro w o hw
    unfold World.left
    rw [hsub]
    exact (World.vacated_without hw hseat).of_same rfl rfl
  refine World.Vacated.alike ?_ hleads.alike
  obtain ⟨o, hfate, hmem⟩ := he.fate (h.seated.stage a) ((mem_stage a).mpr ht)
  cases o with
  | some t' => exact absurd hfate.id_eq (hgone t' (hleads.alike.tasks ▸ hmem))
  | none =>
    cases hfate with
    | cleared ha hd hW =>
      rw [hW]
      exact hleft _ none hseats
    | left ha hd pubs o hl hW =>
      -- What has a listener publishes nothing when it leaves.
      rw [hW, hl.pubs_eq_nil hsub]
      exact hleft _ o hseats

theorem Sound.vacated_after (h : s.Sound) {seat : Seat} (hv : s.world.Vacated seat)
    (acts : List Act) : (s.after acts).world.Vacated seat := by
  have hrun : ∀ acts, (s.after acts).Sound ∧ (s.after acts).world.Vacated seat := by
    refine after_induction (P := fun s => s.Sound ∧ s.world.Vacated seat) ⟨h, hv⟩ ?_
    rintro s' a ⟨h', hv'⟩
    obtain ⟨W, rs, he, hleads, -⟩ := act_effect h'.seated a
    obtain ⟨rs₀, hrs, -⟩ := stage_eq s' a
    have hstage : (s'.stage a).Vacated seat := by
      rw [hrs]
      exact hv'.of_same rfl rfl
    exact ⟨h'.act a, (he.vacated hstage).alike hleads.alike⟩
  exact (hrun acts).2

/-- Whoever has gone has no listener left. -/
theorem Sound.vacated_of_gone (h : s.Sound) {t : Task} (ht : t ∈ s.world.tasks) {sub : Subscription}
    (hsub : t.subscription? = some sub) {seat : Seat} (hseat : sub.seat? = some seat)
    {acts : List Act} (hgone : ∀ u ∈ (s.after acts).world.tasks, u.id ≠ t.id) :
    (s.after acts).world.Vacated seat := by
  induction acts generalizing s t with
  | nil => exact absurd rfl (hgone t ht)
  | cons a acts ih =>
    cases h.leaving ht a with
    | stays t' W hfate hW ht' ho =>
      have hid' := hfate.id_eq
      exact ih (h.act a) ht' (hfate.subscription_eq hsub) fun u hu => hid' ▸ hgone u hu
    | leaves pubs o ha hd hl hleft ho =>
      exact (h.act a).vacated_after (h.vacated_act ht hsub hseat hleft) acts
    | cleared ha hd hleft ho =>
      exact (h.act a).vacated_after (h.vacated_act ht hsub hseat hleft) acts

end Scene

end Roaming.Simulation
