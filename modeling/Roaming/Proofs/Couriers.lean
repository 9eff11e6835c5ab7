import Roaming.Proofs.Ownership
import Roaming.Proofs.Watch

/-!
# Tasks and their POSTs

A task that watches or awaits has handed out one POST, which carries its request, and nobody else
waits for that POST; a task that has not come so far has handed out none (`Task.InPlace`). Every act
keeps this up (`World.Tidy`).
-/

set_option autoImplicit false
set_option relaxedAutoImplicit false

namespace Roaming.Simulation

open Roaming.Text (Bytes)

/-- Whether a listener is one of a medium, on a key. -/
def Subscription.IsOn (medium : Medium) (key : Key) (sub : Subscription) : Prop :=
  sub.key = key ∧
    match medium, sub with
    | .hub _, .hub _ _ => True
    | .puppet name script, .puppet name' _ script' => name' = name ∧ script' = script
    | .link i, .link j _ _ => j = i
    | _, _ => False

/-- Whether a courier carries the POST of an exchange for a task. -/
structure Courier.Serves (c : Courier) (id : WorkId) (e : Errand) : Prop where
  waiter : c.waiter = id
  peer : c.post.peer = e.caller.peer
  body : c.post.body = e.body

/-- Whether a task has handed out no POST. -/
def World.NoCourier (w : World) (id : WorkId) : Prop := ∀ c ∈ w.couriers, c.waiter ≠ id

/-- Whether a task that watches does so for its exchange, over what its client has configured. -/
structure Vigil.For (v : Vigil) (e : Errand) (route : AnswerRoute Medium) : Prop where
  answers : e.caller.answers = some route
  isOn : v.subscription.IsOn route.medium e.key
  key : v.watch.key = e.key
  timeout : v.watch.timeout = route.timeout
  policy : v.watch.policy = route.policy

/-- Whether what a task has is what its stage tells. -/
def Task.InPlace (w : World) (t : Task) : Prop :=
  match t.stage with
  | .fresh => w.NoCourier t.id
  | .subscribing route i _ _ => w.NoCourier t.id ∧
      ∃ e, t.job.errand? = some e ∧ e.caller.answers = some route ∧ route.medium = .link i
  | .armed route sub => w.NoCourier t.id ∧ t.isBusy = true ∧
      ∃ e, t.job.errand? = some e ∧ e.caller.answers = some route ∧ sub.IsOn route.medium e.key
  | .watching v => v.since ≤ w.now ∧
      ∃ e route, t.job.errand? = some e ∧ v.For e route ∧
        ∃ c ∈ w.couriers, c.id = v.courier ∧ c.Serves t.id e ∧ v.watch.Tracks c.post.ending?
  | .awaiting courier =>
      ∃ e, t.job.errand? = some e ∧ e.caller.answers = none ∧
        ∃ c ∈ w.couriers, c.id = courier ∧ c.Serves t.id e
  | .pushing _ => w.NoCourier t.id

/-- What every act keeps up about tasks and POSTs. -/
structure World.Tidy (w : World) : Prop where
  ids : (w.couriers.map (·.id)).Nodup
  waiters : (w.couriers.map (·.waiter)).Nodup
  lt : ∀ c ∈ w.couriers, c.id < w.nextId ∧ c.waiter < w.nextId
  inPlace : ∀ t ∈ w.tasks, t.InPlace w

namespace World

variable {w w' : World}

theorem Tidy.courier?_eq (h : w.Tidy) {c : Courier} (hc : c ∈ w.couriers) :
    w.courier? c.id = some c :=
  find?_of_nodup Courier.id h.ids hc

theorem Tidy.ending?_eq (h : w.Tidy) {c : Courier} (hc : c ∈ w.couriers) :
    w.ending? c.id = c.post.ending? := by
  rw [ending?, h.courier?_eq hc, Option.bind_some]

theorem Tidy.courier_unique (h : w.Tidy) {c d : Courier} (hc : c ∈ w.couriers)
    (hd : d ∈ w.couriers) (hid : c.id = d.id) : c = d := by
  have hcourier := h.courier?_eq hc
  rw [hid, h.courier?_eq hd] at hcourier
  exact (Option.some.inj hcourier).symm

/-- What a task that watches relies on. -/
theorem Tidy.watching (h : w.Tidy) {t : Task} (ht : t ∈ w.tasks) {v : Vigil}
    (hst : t.stage = .watching v) : v.since ≤ w.now ∧
      ∃ e route, t.job.errand? = some e ∧ v.For e route ∧
        ∃ c ∈ w.couriers, c.id = v.courier ∧ c.Serves t.id e ∧
          v.watch.Tracks (w.ending? v.courier) := by
  have hplace := h.inPlace t ht
  rw [Task.InPlace, hst] at hplace
  obtain ⟨hsince, e, route, he, hfor, c, hc, hid, hserves, htracks⟩ := hplace
  rw [← h.ending?_eq hc, hid] at htracks
  exact ⟨hsince, e, route, he, hfor, c, hc, hid, hserves, htracks⟩

/-- What is in place stays so while the POSTs are the same, whatever the time. -/
theorem inPlace_of_couriers {t : Task} (h : t.InPlace w) (hcouriers : w'.couriers = w.couriers)
    (hnow : w.now ≤ w'.now) : t.InPlace w' := by
  unfold Task.InPlace NoCourier at h ⊢
  cases hst : t.stage with
  | watching v =>
    rw [hst] at h
    dsimp only at h ⊢
    rw [hcouriers]
    exact ⟨Nat.le_trans h.1 hnow, h.2⟩
  | fresh => rw [hst] at h; dsimp only at h ⊢; rwa [hcouriers]
  | subscribing route i call listener => rw [hst] at h; dsimp only at h ⊢; rwa [hcouriers]
  | armed route sub => rw [hst] at h; dsimp only at h ⊢; rwa [hcouriers]
  | awaiting courier => rw [hst] at h; dsimp only at h ⊢; rwa [hcouriers]
  | pushing p => rw [hst] at h; dsimp only at h ⊢; rwa [hcouriers]

/-- Tasks and POSTs are what counts, and the clock goes on. -/
theorem Tidy.congr (h : w.Tidy) (htasks : ∀ t ∈ w'.tasks, t ∈ w.tasks)
    (hcouriers : w'.couriers = w.couriers) (hnext : w.nextId ≤ w'.nextId)
    (hnow : w.now ≤ w'.now) : w'.Tidy where
  ids := by rw [hcouriers]; exact h.ids
  waiters := by rw [hcouriers]; exact h.waiters
  lt c hc := by
    rw [hcouriers] at hc
    obtain ⟨hid, hwaiter⟩ := h.lt c hc
    exact ⟨Nat.lt_of_lt_of_le hid hnext, Nat.lt_of_lt_of_le hwaiter hnext⟩
  inPlace t ht := inPlace_of_couriers (h.inPlace t (htasks t ht)) hcouriers hnow

theorem Tidy.alike (h : w.Tidy) (ha : w.Alike w') : w'.Tidy :=
  h.congr (fun _ ht => ha.tasks ▸ ht) ha.couriers (Nat.le_of_eq ha.nextId.symm)
    (Nat.le_of_eq ha.now.symm)

theorem Tidy.listenersOnly (h : w.Tidy) (hl : w.ListenersOnly w') : w'.Tidy :=
  h.congr (fun _ ht => hl.tasks ▸ ht) hl.couriers (Nat.le_of_eq hl.nextId.symm)
    (Nat.le_of_eq hl.now.symm)

/-- One task is put in the place of another. -/
theorem Tidy.putTask (h : w.Tidy) {t' : Task} (hplace : t'.InPlace w) : (w.putTask t').Tidy where
  ids := h.ids
  waiters := h.waiters
  lt := h.lt
  inPlace u hu := by
    rcases mem_putTask.mp hu with ⟨hu, -⟩ | ⟨rfl, -⟩
    · exact inPlace_of_couriers (h.inPlace u hu) rfl (Nat.le_refl _)
    · exact inPlace_of_couriers hplace rfl (Nat.le_refl _)

theorem Tidy.gone (h : w.Tidy) (t : Task) (o : Option Outcome) : (w.gone t o).Tidy :=
  h.congr (fun _ hu => (mem_gone.mp hu).1) rfl (Nat.le_refl _) (Nat.le_refl _)

theorem Tidy.left (h : w.Tidy) (t : Task) (o : Option Outcome) : (w.left t o).Tidy := by
  obtain ⟨w₀, hw, heq⟩ := left_eq t o w
  rw [heq]
  exact (h.listenersOnly hw).gone t o

theorem Tidy.started (h : w.Tidy) (name : String) (job : Job) (cancellation : Cancellation) :
    (w.started name job cancellation).Tidy where
  ids := h.ids
  waiters := h.waiters
  lt c hc := ⟨Nat.lt_succ_of_lt (h.lt c hc).1, Nat.lt_succ_of_lt (h.lt c hc).2⟩
  inPlace t ht := by
    rcases List.mem_append.mp ht with ht | ht
    · exact inPlace_of_couriers (h.inPlace t ht) rfl (Nat.le_refl _)
    · rw [List.mem_singleton.mp ht]
      exact fun c hc => Nat.ne_of_lt (h.lt c hc).2

/-! ### POSTs that are handed out and moved -/

private theorem inPlace_handedOut {t : Task} {waiter : WorkId} (h : t.InPlace w)
    (hne : t.id ≠ waiter) (peer : Nat) (body : Bytes) :
    t.InPlace (w.handedOut waiter peer body) := by
  have hno : w.NoCourier t.id → (w.handedOut waiter peer body).NoCourier t.id := by
    intro hno c hc
    rcases List.mem_append.mp hc with hc | hc
    · exact hno c hc
    · rw [List.mem_singleton.mp hc]
      exact Ne.symm hne
  have hmem : ∀ c ∈ w.couriers, c ∈ (w.handedOut waiter peer body).couriers :=
    fun c hc => List.mem_append_left _ hc
  unfold Task.InPlace at h ⊢
  cases hst : t.stage with
  | fresh => rw [hst] at h; exact hno h
  | subscribing route i call listener => rw [hst] at h; exact ⟨hno h.1, h.2⟩
  | armed route sub => rw [hst] at h; exact ⟨hno h.1, h.2⟩
  | watching v =>
    rw [hst] at h
    obtain ⟨hsince, e, route, he, hfor, c, hc, hrest⟩ := h
    exact ⟨hsince, e, route, he, hfor, c, hmem c hc, hrest⟩
  | awaiting courier =>
    rw [hst] at h
    obtain ⟨e, he, hroute, c, hc, hrest⟩ := h
    exact ⟨e, he, hroute, c, hmem c hc, hrest⟩
  | pushing p => rw [hst] at h; exact hno h

/-- A task hands out its POST, and goes to a stage that tells so. -/
private theorem Tidy.handOut (h : w.Tidy) {t : Task} (hlt : t.id < w.nextId)
    (hno : w.NoCourier t.id) (t' : Task) (hid : t'.id = t.id) {peer : Nat} {body : Bytes}
    (hplace : t'.InPlace (w.handedOut t.id peer body)) :
    ((w.handedOut t.id peer body).putTask t').Tidy where
  ids := by
    simp only [World.putTask, World.handedOut, List.map_append, List.map_cons, List.map_nil]
    refine List.nodup_append.mpr ⟨h.ids, List.nodup_singleton _, fun a ha b hb => ?_⟩
    obtain ⟨c, hc, rfl⟩ := List.mem_map.mp ha
    rw [List.mem_singleton.mp hb]
    exact Nat.ne_of_lt (h.lt c hc).1
  waiters := by
    simp only [World.putTask, World.handedOut, List.map_append, List.map_cons, List.map_nil]
    refine List.nodup_append.mpr ⟨h.waiters, List.nodup_singleton _, fun a ha b hb => ?_⟩
    obtain ⟨c, hc, rfl⟩ := List.mem_map.mp ha
    rw [List.mem_singleton.mp hb]
    exact hno c hc
  lt c hc := by
    rcases List.mem_append.mp hc with hc | hc
    · exact ⟨Nat.lt_succ_of_lt (h.lt c hc).1, Nat.lt_succ_of_lt (h.lt c hc).2⟩
    · rw [List.mem_singleton.mp hc]
      exact ⟨Nat.lt_succ_self _, Nat.lt_succ_of_lt hlt⟩
  inPlace u hu := by
    rcases mem_putTask.mp hu with ⟨hu, hne⟩ | ⟨rfl, -⟩
    · have hkept :=
        inPlace_handedOut (h.inPlace u hu) (fun hut => hne (hut.trans hid.symm)) peer body
      exact inPlace_of_couriers hkept rfl (Nat.le_refl _)
    · exact inPlace_of_couriers hplace rfl (Nat.le_refl _)

private theorem inPlace_putCourier {t : Task} (h : t.InPlace w) (ht : w.Tidy) {c c' : Courier}
    (hc : c ∈ w.couriers) (hid : c'.id = c.id) (hwaiter : c'.waiter = c.waiter)
    (hpeer : c'.post.peer = c.post.peer) (hbody : c'.post.body = c.post.body)
    (hopen : c.post.ending? = none) : t.InPlace (w.putCourier c') := by
  have hno : w.NoCourier t.id → (w.putCourier c').NoCourier t.id := by
    intro hno d hd
    obtain ⟨d₀, hd₀, rfl⟩ := List.mem_map.mp hd
    split
    · rw [hwaiter]
      exact hno c hc
    · exact hno d₀ hd₀
  -- A POST that was waited for is still there; if it is the one that changed, its end was not seen.
  have hmem : ∀ d ∈ w.couriers, ∃ d' ∈ (w.putCourier c').couriers, d'.id = d.id ∧
      d'.waiter = d.waiter ∧ d'.post.peer = d.post.peer ∧ d'.post.body = d.post.body ∧
      (d' = d ∨ d.post.ending? = none) := by
    intro d hd
    by_cases hdc : d.id = c'.id
    · have hsame := ht.courier_unique hd hc (hdc.trans hid)
      subst hsame
      refine ⟨c', List.mem_map.mpr ⟨d, hd, if_pos hdc⟩, hid, hwaiter, hpeer, hbody, .inr hopen⟩
    · exact ⟨d, List.mem_map.mpr ⟨d, hd, if_neg hdc⟩, rfl, rfl, rfl, rfl, .inl rfl⟩
  have hserves : ∀ {d d' : Courier} {e : Errand}, d.Serves t.id e → d'.waiter = d.waiter →
      d'.post.peer = d.post.peer → d'.post.body = d.post.body → d'.Serves t.id e :=
    fun hs hw hp hb => ⟨hw.trans hs.waiter, hp.trans hs.peer, hb.trans hs.body⟩
  unfold Task.InPlace at h ⊢
  cases hst : t.stage with
  | fresh => rw [hst] at h; exact hno h
  | subscribing route i call listener => rw [hst] at h; exact ⟨hno h.1, h.2⟩
  | armed route sub => rw [hst] at h; exact ⟨hno h.1, h.2⟩
  | watching v =>
    rw [hst] at h
    obtain ⟨hsince, e, route, he, hfor, d, hd, hdid, hs, htracks⟩ := h
    obtain ⟨d', hd', hdid', hw, hp, hb, hsame⟩ := hmem d hd
    refine ⟨hsince, e, route, he, hfor, d', hd', hdid'.trans hdid, hserves hs hw hp hb, ?_⟩
    rcases hsame with rfl | hnone
    · exact htracks
    · intro hpending
      have hsome := (htracks hpending).1
      rw [hnone] at hsome
      cases hsome
  | awaiting courier =>
    rw [hst] at h
    obtain ⟨e, he, hroute, d, hd, hdid, hs⟩ := h
    obtain ⟨d', hd', hdid', hw, hp, hb, -⟩ := hmem d hd
    exact ⟨e, he, hroute, d', hd', hdid'.trans hdid, hserves hs hw hp hb⟩
  | pushing p => rw [hst] at h; exact hno h

private theorem Tidy.putCourier (h : w.Tidy) {c c' : Courier} (hc : c ∈ w.couriers)
    (hid : c'.id = c.id) (hwaiter : c'.waiter = c.waiter) (hpeer : c'.post.peer = c.post.peer)
    (hbody : c'.post.body = c.post.body) (hopen : c.post.ending? = none) :
    (w.putCourier c').Tidy where
  ids := by
    have hsame : (w.putCourier c').couriers.map (·.id) = w.couriers.map (·.id) := by
      rw [World.putCourier, List.map_map]
      refine List.map_congr_left fun d _ => ?_
      by_cases hd : d.id = c'.id <;> simp [hd]
    rw [hsame]
    exact h.ids
  waiters := by
    have hsame : (w.putCourier c').couriers.map (·.waiter) = w.couriers.map (·.waiter) := by
      rw [World.putCourier, List.map_map]
      refine List.map_congr_left fun d hd => ?_
      by_cases hdc : d.id = c'.id
      · have hsame := h.courier_unique hd hc (hdc.trans hid)
        subst hsame
        rw [Function.comp_apply, if_pos hdc]
        exact hwaiter
      · simp [hdc]
    rw [hsame]
    exact h.waiters
  lt d hd := by
    obtain ⟨d₀, hd₀, rfl⟩ := List.mem_map.mp hd
    split
    · rw [hid, hwaiter]
      exact h.lt c hc
    · exact h.lt d₀ hd₀
  inPlace t ht :=
    inPlace_putCourier (h.inPlace t ht) h hc hid hwaiter hpeer hbody hopen

/-! ### Every act keeps it up -/

private theorem Tidy.moves (h : w.Tidy) {t : Task} (ht : t ∈ w.tasks) (hlt : t.id < w.nextId)
    {stage : Stage} {isBusy : Bool} {gain : Gain} (hm : Moves w t stage isBusy gain) :
    ((w.gained t.id gain).putTask { t with stage, isBusy }).Tidy := by
  have hplace := h.inPlace t ht
  rw [Task.InPlace] at hplace
  cases hm with
  | waits hw =>
    refine h.putTask ?_
    rw [Task.InPlace]
    rw [Task.IsWaiting] at hw
    cases hst : t.stage <;> simp_all
  | asks e hst he hroute =>
    rw [hst] at hplace
    exact h.handOut hlt hplace { t with stage := .awaiting w.nextId, isBusy := true } rfl
      ⟨e, he, hroute, _, List.mem_append_right _ (List.mem_singleton_self _), rfl, ⟨rfl, rfl, rfl⟩⟩
  | enlists e route name hst he hroute hmedium =>
    rw [hst] at hplace
    refine (h.listenersOnly (listenersOnly_onListeners none _ w)).putTask ?_
    refine inPlace_of_couriers (w := w) ⟨hplace, rfl, e, he, hroute, rfl, ?_⟩ rfl (Nat.le_refl _)
    rw [hmedium]
    trivial
  | feigns e route name script hst he hroute hmedium hok =>
    rw [hst] at hplace
    refine h.putTask ⟨hplace, rfl, e, he, hroute, rfl, ?_⟩
    rw [hmedium]
    exact ⟨rfl, rfl⟩
  | calls e route i s hst he hroute hmedium hs =>
    rw [hst] at hplace
    refine (h.listenersOnly (listenersOnly_onListeners (some i) _ w)).putTask ?_
    exact inPlace_of_couriers (w := w) ⟨hplace, e, he, hroute, hmedium⟩ rfl (Nat.le_refl _)
  | confirms e route i call listener hst he ho =>
    rw [hst] at hplace
    obtain ⟨hno, e', he', hroute, hmedium⟩ := hplace
    refine h.putTask ⟨hno, rfl, e', he', hroute, ?_, ?_⟩
    · rw [he] at he'
      cases he'
      rfl
    · rw [hmedium]
  | launches e route sub v hst he hv =>
    rw [hst] at hplace
    obtain ⟨hno, -, e', he', hroute, hon⟩ := hplace
    rw [he] at he'
    cases he'
    have hput : ((w.handedOut t.id e.caller.peer e.body).putTask
        { t with stage := .watching v, isBusy := true }).Tidy := by
      refine h.handOut hlt hno { t with stage := .watching v, isBusy := true } rfl ?_
      subst hv
      exact ⟨Nat.le_refl _, e, route, he, ⟨hroute, hon, rfl, rfl, rfl⟩, _,
        List.mem_append_right _ (List.mem_singleton_self _), rfl, ⟨rfl, rfl, rfl⟩,
        fun hp => by cases hp⟩
    exact hput.congr (fun _ hu => hu) rfl (Nat.le_refl _) (Nat.le_refl _)
  | looks v hst hpoll =>
    rw [hst] at hplace
    obtain ⟨hsince, e, route, he, hfor, c, hc, hid, hserves, htracks⟩ := hplace
    have hsent : (w.view t v).sent = c.post.ending? := by
      rw [← h.ending?_eq hc, hid]
      rfl
    have hspec := Watch.poll_spec (w := v.watch) (v := w.view t v) (hsent ▸ htracks)
    have hnone : v.watch.verdict (w.view t v) = none := hspec.1.symm.trans hpoll
    have hwatch := hspec.2 hnone
    refine h.putTask ⟨hsince, e, route, he, ?_, c, hc, hid, hserves, ?_⟩
    · rw [hwatch]
      exact ⟨hfor.answers, hfor.isOn, hfor.key, hfor.timeout, hfor.policy⟩
    · rw [← hsent]
      exact Watch.tracks_poll (hsent ▸ htracks) hpoll
  | pushes p busy hp hnone =>
    refine h.putTask ?_
    rw [Task.push?] at hp
    rw [Task.InPlace]
    split at hp
    · rename_i hst hjob
      rw [hst] at hplace
      exact hplace
    · rename_i hst hjob
      rw [hst] at hplace
      exact hplace
    · cases hp

theorem Tidy.effect {hs hs' : List (Option Subscription)} (h : w.Tidy)
    (hseated : (⟨w, hs⟩ : Scene).Seated) {a : Act} {rs : List Runnable}
    (he : Effect w hs a w' hs' rs) : w'.Tidy := by
  have hlisteners := he.listenersOnly
  cases he with
  | aside a ha => exact h
  | starts name job cancellation => exact h.started name job cancellation
  | turns id t W ht hW =>
    have hmem : t ∈ w.tasks := List.mem_of_find?_eq_some ht
    cases hW with
    | cleared hd => exact h.left t none
    | still hd hidle => exact h
    | leaves hd pubs o hl =>
      exact (h.listenersOnly (listenersOnly_onListeners none _ w)).left t o
    | moves hd stage isBusy gain hm => exact h.moves hmem (hseated.ids_lt t hmem) hm
  | carries id c hc hopen =>
    have hmem : c ∈ w.couriers := List.mem_of_find?_eq_some hc
    have hoffered :=
      h.listenersOnly (listenersOnly_onListeners none (·.offerAll (w.carries c.post)) w)
    obtain ⟨hpeer, hbody⟩ := peer_advanced c.post w
    exact hoffered.putCourier (c := c) hmem rfl rfl hpeer hbody hopen
  | cancels id t ht =>
    refine h.putTask ?_
    exact h.inPlace t (List.mem_of_find?_eq_some ht)
  | drops id t ht =>
    refine h.putTask ?_
    exact h.inPlace t (List.mem_of_find?_eq_some ht)
  | rings time => exact h.congr (fun _ ht => ht) rfl (Nat.le_refl _) (Nat.le_max_left _ _)
  | _ => exact h.listenersOnly (hlisteners trivial)

end World

namespace Scene

theorem tidy_stage {s : Scene} (h : s.world.Tidy) (a : Act) : (s.stage a).Tidy := by
  obtain ⟨rs, hrs, -⟩ := stage_eq s a
  rw [hrs]
  exact World.Tidy.congr (w := s.world) h (fun _ ht => ht) rfl (Nat.le_refl _) (Nat.le_refl _)

theorem act_tidy {s : Scene} (hseated : s.Seated) (h : s.world.Tidy) (a : Act) :
    (s.act a).world.Tidy := by
  obtain ⟨W, rs, he, hleads, -⟩ := act_effect hseated a
  exact ((tidy_stage h a).effect (hseated.stage a) he).alike hleads.alike

theorem IsOpening.tidy {s : Scene} (h : s.IsOpening) : s.world.Tidy where
  ids := by rw [h.couriers]; exact List.nodup_nil
  waiters := by rw [h.couriers]; exact List.nodup_nil
  lt c hc := by rw [h.couriers] at hc; cases hc
  inPlace t ht := by rw [h.tasks] at ht; cases ht

end Scene

end Roaming.Simulation
