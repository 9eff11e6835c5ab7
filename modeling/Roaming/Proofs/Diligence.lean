import Roaming.Proofs.Passages

/-!
# No POST is forgotten

A POST that has not ended stands in the queue, has an alarm, or is in the middle of its turn
(`World.Rouses`). Every act keeps this up, whether the task that waits for the POST is there or not.
-/

set_option autoImplicit false
set_option relaxedAutoImplicit false

namespace Roaming.Simulation

/-- Whether a POST goes on: it stands in the queue until its peer has it, an alarm is set for the
end of the delay, and it is woken then. Without a delay it goes on in the same turn. -/
def World.Rouses (w : World) (c : Courier) : Prop :=
  match c.post.stage with
  | .unsent => .post c.id ∈ w.ready
  | .underway due reply => (w.now < due → ⟨due, .post c.id⟩ ∈ w.alarms) ∧
      (due ≤ w.now → .post c.id ∈ w.ready ∨ reply.delay = 0)
  | .ended _ => True

namespace Scene

variable {s : Scene} {c : Courier}

/-- Whether every POST whose peer there is goes on. -/
def RousesAll (s : Scene) : Prop :=
  ∀ c ∈ s.world.couriers, s.world.peers[c.post.peer]? ≠ none → s.world.Rouses c

/-- Peers neither come nor go. -/
theorem peer_none_act (a : Act) (s : Scene) (i : Nat) :
    (s.act a).world.peers[i]? = none ↔ s.world.peers[i]? = none := by
  rw [peers_act]
  cases s.posted? a with
  | none => rfl
  | some p =>
    rw [Option.map_some, Option.getD_some, World.getElem?_reached]
    split
    · exact Option.map_eq_none_iff
    · rfl

theorem Sound.ready_act (h : s.Sound) {r : Runnable} (hr : r ∈ s.world.ready) {a : Act}
    (ha : a ≠ .move r) : r ∈ (s.act a).world.ready := by
  obtain ⟨W, rs, -, hleads, -⟩ := act_effect h.seated a
  exact ready_kept hleads hr fun hmove => absurd hmove ha

theorem Sound.alarm_act (h : s.Sound) {x : Alarm} (hx : x ∈ s.world.alarms) (a : Act)
    (hlate : (s.act a).world.now < x.due) : x ∈ (s.act a).world.alarms := by
  obtain ⟨W, rs, he, hleads, -⟩ := act_effect h.seated a
  obtain ⟨rs₀, hrs, -⟩ := stage_eq s a
  rw [hleads.alike.now] at hlate
  refine hleads.alike.alarms x (World.alarm_kept he ?_ hlate)
  rwa [hrs]

theorem Sound.now_le (h : s.Sound) (b : Act) : s.world.now ≤ (s.act b).world.now := by
  rw [h.now_act b]
  split
  · exact Nat.le_max_left _ _
  · exact Nat.le_refl _

/-- The owner of an alarm is woken when the time has come. -/
theorem Sound.alarm_rings (h : s.Sound) {x : Alarm} (hx : x ∈ s.world.alarms) {a : Act}
    (hbefore : s.world.now < x.due) (hdue : x.due ≤ (s.act a).world.now) :
    x.owner ∈ (s.act a).world.ready := by
  rw [h.now_act a] at hdue
  cases a with
  | ring time =>
    have hmem : x ∈ s.world.alarms.filter fun x => x.due ≤ time := by
      refine List.mem_filter.mpr ⟨hx, ?_⟩
      have hdue' : x.due ≤ max s.world.now time := hdue
      have hle : x.due ≤ time := by omega
      simpa using hle
    exact World.mem_ready_wakeAll (List.mem_map_of_mem hmem) _
  | _ => exact absurd hdue (Nat.not_le_of_lt hbefore)

/-- A POST that is not moved goes on as before. -/
private theorem Sound.rouses_kept (h : s.Sound) (hc : s.world.Rouses c) {a : Act}
    (ha : a = .move (.post c.id) → c.post.ending?.isSome) : (s.act a).world.Rouses c := by
  unfold World.Rouses at hc ⊢
  unfold Post.ending? at ha
  cases hst : c.post.stage with
  | ended ending => trivial
  | unsent =>
    rw [hst] at hc ha
    exact h.ready_act hc fun hmove => by cases ha hmove
  | underway due reply =>
    rw [hst] at hc ha
    obtain ⟨hset, hwoken⟩ := hc
    have hother : a ≠ .move (.post c.id) := fun hmove => by cases ha hmove
    refine ⟨fun hlate => ?_, fun hdue => ?_⟩
    · exact h.alarm_act (hset (Nat.lt_of_le_of_lt (h.now_le a) hlate)) a hlate
    · by_cases hbefore : s.world.now < due
      · exact .inl (h.alarm_rings (hset hbefore) hbefore hdue)
      · exact (hwoken (Nat.le_of_not_lt hbefore)).imp_left fun hr => h.ready_act hr hother

/-- When a POST is handed to its peer, an alarm is set for the end of the delay. -/
private theorem Sound.alarm_of_handing (h : s.Sound) (hc : c ∈ s.world.couriers) {peer : Peer}
    (hpeer : s.world.peers[c.post.peer]? = some peer) (hst : c.post.stage = .unsent)
    (hdelay : (peer.react peer.posts c.post.body).delay ≠ 0) :
    ⟨s.world.now + (peer.react peer.posts c.post.body).delay, .post c.id⟩ ∈
      (s.act (.move (.post c.id))).world.alarms := by
  obtain ⟨rs, hrs, -⟩ := takeUp_eq (.post c.id) s.world
  have hcourier : ({ s.world with ready := rs } : World).courier? c.id = some c :=
    h.tidy.courier?_eq hc
  have hpeer' : ({ s.world with ready := rs } : World).peers[c.post.peer]? = some peer := hpeer
  show _ ∈ ((s.world.takeUp (.post c.id)).moveCourier c.id).alarms
  rw [hrs]
  simp only [World.moveCourier, hcourier, World.movePost, hpeer', hst, hdelay, if_false,
    Post.ending?]
  exact World.mem_setAlarm.mpr (.inr rfl)

private theorem Sound.rouses_moved (h : s.Sound) (hc : c ∈ s.world.couriers)
    (hpeer : s.world.peers[c.post.peer]? ≠ none) (hrouses : s.world.Rouses c) :
    (s.act (.move (.post c.id))).world.Rouses { c with post := s.world.advanced c.post } := by
  obtain ⟨peer, hpeer⟩ := Option.ne_none_iff_exists'.mp hpeer
  have hnow : (s.act (.move (.post c.id))).world.now = s.world.now := h.now_act _
  unfold World.Rouses at hrouses ⊢
  unfold World.advanced
  rw [hpeer]
  cases hst : c.post.stage with
  | ended ending => simp only [hst]
  | unsent =>
    dsimp only
    rw [hnow]
    refine ⟨fun hlate => ?_, fun hdue => .inr (by omega)⟩
    exact h.alarm_of_handing hc hpeer hst (by omega)
  | underway due reply =>
    rw [hst] at hrouses
    dsimp only
    by_cases hdue : due ≤ s.world.now
    · simp only [if_pos hdue]
    · simp only [if_neg hdue, hst]
      rw [hnow]
      refine ⟨fun hlate => ?_, fun h => absurd h hdue⟩
      exact h.alarm_act (hrouses.1 hlate) _ (hnow ▸ hlate)

/-- A POST that is handed out is woken. -/
private theorem Sound.rouses_new (h : s.Sound) {t : Task} (ht : t ∈ s.world.tasks) {d : Courier}
    (hd : d ∈ (s.act (.move (.task t.id))).world.couriers) (hnew : d.id = s.world.nextId) :
    (s.act (.move (.task t.id))).world.Rouses d := by
  obtain ⟨rs, hworld⟩ := act_moveTask t.id s
  have htask : ({ s.world with ready := rs } : World).task? t.id = some t := h.seated.task?_eq ht
  have hold : ∀ c ∈ s.world.couriers, c.id ≠ d.id := by
    intro c hc hid
    exact Nat.ne_of_lt (h.tidy.lt c hc).1 (hid.trans hnew)
  rw [hworld] at hd ⊢
  by_cases hpush : (t.isDropped && !t.isBusy) = true ∨ t.push? = none
  · obtain ⟨new, hout, hover⟩ := World.overlooks_moveTask htask hpush
    rw [hover.couriers_eq.1] at hd
    rcases List.mem_append.mp hd with hd | hd
    · exact absurd rfl (hold d hd)
    · unfold World.Rouses
      rw [hout.unsent d hd]
      exact hout.ready d hd
  · rw [not_or] at hpush
    obtain ⟨p, hp⟩ := Option.ne_none_iff_exists'.mp hpush.2
    have hsame := congrArg World.couriers (World.moveTask_of_push htask hpush.1 hp s.world.couriers)
    change (World.moveTask t.id { s.world with ready := rs }).couriers = s.world.couriers at hsame
    rw [hsame] at hd
    exact absurd rfl (hold d hd)

theorem Sound.rousesAll_act (h : s.Sound) (hrouses : s.RousesAll) (a : Act) :
    (s.act a).RousesAll := by
  intro d hd hpeer
  rw [Ne, peer_none_act] at hpeer
  obtain ⟨W, rs, he, hleads, -⟩ := act_effect h.seated a
  obtain ⟨rs₀, hrs, -⟩ := stage_eq s a
  have hW := hleads.alike.couriers ▸ hd
  rcases he.courier_origin hW with ⟨c, hc, hid, -, hsame, -⟩ |
    ⟨t, ht, stage, isBusy, peer, body, alarm, rfl, -, hnew⟩
  · have hc : c ∈ s.world.couriers := by
      rw [hrs] at hc
      exact hc
    rw [hsame] at hpeer
    have hbefore := hrouses c hc hpeer
    rcases h.courier_fate hc a with ⟨hc', hended⟩ | ⟨rfl, hc'⟩
    · rw [(h.act a).tidy.courier_unique hd hc' hid]
      exact h.rouses_kept hbefore hended
    · rw [(h.act _).tidy.courier_unique hd hc' hid]
      exact h.rouses_moved hc hpeer hbefore
  · have hnext : (s.stage (.move (.task t.id))).nextId = s.world.nextId := by rw [hrs]
    refine h.rouses_new ((mem_stage _).mp ht) hd ?_
    rw [hnew, ← hnext]

/-- In every reachable scene every POST goes on. -/
theorem IsOpening.rousesAll (hs : s.IsOpening) (acts : List Act) : (s.after acts).RousesAll := by
  have hrun : ∀ acts, (s.after acts).Sound ∧ (s.after acts).RousesAll := by
    refine after_induction (P := fun s => s.Sound ∧ s.RousesAll) ⟨hs.sound, fun c hc => ?_⟩ ?_
    · rw [hs.couriers] at hc
      cases hc
    · rintro s' a ⟨h, hrouses⟩
      exact ⟨h.act a, h.rousesAll_act hrouses a⟩
  exact (hrun acts).2

end Scene

end Roaming.Simulation
