import Roaming.Proofs.Diligence

/-!
# Abandoned waits

A POST goes its way whether its task still waits for it or not. When the task has gone, it is no
matter any more how the POST ends (`Scene.withEnding`): everything else happens as it would with any
other ending.
-/

set_option autoImplicit false
set_option relaxedAutoImplicit false

namespace Roaming.Simulation

/-- A POST whose peer has it, with another ending. -/
def Post.withEnding (e : Ending) (p : Post) : Post :=
  match p.stage with
  | .unsent => p
  | .underway due reply => { p with stage := .underway due { reply with ending := e } }
  | .ended _ => { p with stage := .ended e }

/-- The courier with a number gets another ending. -/
def Courier.withEnding (id : WorkId) (e : Ending) (c : Courier) : Courier :=
  if c.id = id then { c with post := c.post.withEnding e } else c

/-- A world in which the POST with a number ends in another way. -/
def World.withEnding (id : WorkId) (e : Ending) (w : World) : World :=
  { w with couriers := w.couriers.map (Courier.withEnding id e) }

/-- A scene in which the POST with a number ends in another way. -/
def Scene.withEnding (id : WorkId) (e : Ending) (s : Scene) : Scene :=
  { s with world := s.world.withEnding id e }

@[simp] theorem Post.ending?_withEnding (e : Ending) (p : Post) :
    (p.withEnding e).ending?.isSome = p.ending?.isSome := by
  unfold Post.withEnding Post.ending?
  cases hst : p.stage with
  | unsent => simp [hst]
  | underway due reply => rfl
  | ended ending => rfl

@[simp] theorem Courier.id_withEnding (id : WorkId) (e : Ending) (c : Courier) :
    (c.withEnding id e).id = c.id := by
  unfold Courier.withEnding
  split <;> rfl

@[simp] theorem Courier.waiter_withEnding (id : WorkId) (e : Ending) (c : Courier) :
    (c.withEnding id e).waiter = c.waiter := by
  unfold Courier.withEnding
  split <;> rfl

@[simp] theorem Courier.ending?_withEnding (id : WorkId) (e : Ending) (c : Courier) :
    (c.withEnding id e).post.ending?.isSome = c.post.ending?.isSome := by
  unfold Courier.withEnding
  split
  · exact Post.ending?_withEnding e c.post
  · rfl

theorem Courier.withEnding_of_ne {id : WorkId} {c : Courier} (h : c.id ≠ id) (e : Ending) :
    c.withEnding id e = c := if_neg h

namespace World

variable {w : World} {id : WorkId} {e : Ending}

theorem withEnding_eq (id : WorkId) (e : Ending) (w : World) :
    w.withEnding id e = w.withPosts (w.couriers.map (Courier.withEnding id e)) w.peers := rfl

theorem courier?_withEnding (id i : WorkId) (e : Ending) (w : World) :
    (w.withEnding id e).courier? i = (w.courier? i).map (Courier.withEnding id e) := by
  show (w.couriers.map (Courier.withEnding id e)).find? _ = _
  rw [List.find?_map]
  congr 2
  funext c
  simp

theorem asOpen_withEnding (id : WorkId) (e : Ending) (w : World) :
    w.AsOpen (w.couriers.map (Courier.withEnding id e)) := by
  unfold AsOpen
  rw [List.any_map]
  congr 1
  funext c
  simp [← Option.not_isSome]

/-- A task that does not look at the POST moves on in the same way. -/
theorem moveTask_withEnding {i : WorkId} (hid : id < w.nextId)
    (hunseen : ∀ t ∈ w.tasks, t.lookout? ≠ some id) :
    (w.withEnding id e).moveTask i = (w.moveTask i).withEnding id e := by
  cases ht : w.task? i with
  | none =>
    have ht' : (w.withEnding id e).task? i = none := ht
    simp only [moveTask, ht, ht']
  | some t =>
    have hmem : t ∈ w.tasks := List.mem_of_find?_eq_some ht
    by_cases hpush : (t.isDropped && !t.isBusy) = true ∨ t.push? = none
    · obtain ⟨new, hnew, hover⟩ := overlooks_moveTask ht hpush
      obtain ⟨hcouriers, hpeers⟩ := hover.couriers_eq
      have hseen : w.AsSeen t (w.couriers.map (Courier.withEnding id e)) := by
        refine ⟨asOpen_withEnding id e w, fun i' hi' => ?_⟩
        have hne : i' ≠ id := by
          rintro rfl
          exact hunseen t hmem hi'
        have hcourier := courier?_withEnding id i' e w
        change (w.couriers.map (Courier.withEnding id e)).find? _ = _ at hcourier
        rw [hcourier, ending?]
        cases hc : w.courier? i' with
        | none => rfl
        | some c =>
          have hci : c.id = i' := by simpa using List.find?_some hc
          rw [Option.map_some, Courier.withEnding_of_ne (hci.trans_ne hne)]
      have hsame : new.map (Courier.withEnding id e) = new := by
        refine (List.map_congr_left fun c hc => ?_).trans (List.map_id new)
        exact Courier.withEnding_of_ne (fun h => Nat.ne_of_gt hid ((hnew.id c hc).symm.trans h)) e
      rw [withEnding_eq, withEnding_eq, hover _ _ hseen, hcouriers, hpeers, List.map_append, hsame]
    · rw [not_or] at hpush
      obtain ⟨hd, hne⟩ := hpush
      obtain ⟨p, hp⟩ := Option.ne_none_iff_exists'.mp hne
      have hsame := moveTask_of_push ht hd hp
      have hself : w.moveTask i = (w.moveTask i).withPosts w.couriers (w.reached p) :=
        hsame w.couriers
      have hcouriers := congrArg couriers hself
      have hpeers := congrArg peers hself
      change (w.moveTask i).couriers = w.couriers at hcouriers
      change (w.moveTask i).peers = w.reached p at hpeers
      rw [withEnding_eq, withEnding_eq, hsame, hcouriers, hpeers]

/-- A POST that its peer has goes its way in the same way, and ends as it is to. -/
theorem movePost_withEnding (owner : Runnable) {p : Post} (hsent : p.isUnsent = false) (e : Ending)
    (w : World) : w.movePost owner (p.withEnding e) =
      ((w.movePost owner p).1.withEnding e, (w.movePost owner p).2) := by
  unfold Post.isUnsent at hsent
  unfold movePost Post.withEnding
  cases hst : p.stage with
  | unsent => rw [hst] at hsent; cases hsent
  | ended ending =>
    dsimp only
    cases w.peers[p.peer]? <;> simp [hst]
  | underway due reply =>
    dsimp only
    cases w.peers[p.peer]? with
    | none => simp [hst]
    | some peer =>
      dsimp only
      by_cases hdue : due ≤ w.now
      · rw [if_pos hdue, if_pos hdue]
        rfl
      · rw [if_neg hdue, if_neg hdue]
        simp [hst]

theorem putCourier_withEnding (id : WorkId) (e : Ending) (c : Courier) (w : World) :
    (w.withEnding id e).putCourier (c.withEnding id e) = (w.putCourier c).withEnding id e := by
  unfold withEnding putCourier
  dsimp only
  rw [List.map_map, List.map_map]
  congr 1
  refine List.map_congr_left fun d _ => ?_
  simp only [Function.comp_apply, Courier.id_withEnding]
  split <;> rfl

/-- A move of a POST is the same but for how it ends. -/
theorem moveCourier_withEnding {i : WorkId}
    (hsent : ∀ c ∈ w.couriers, c.id = id → c.post.isUnsent = false) :
    (w.withEnding id e).moveCourier i = (w.moveCourier i).withEnding id e := by
  unfold moveCourier
  rw [courier?_withEnding]
  cases hc : w.courier? i with
  | none => rfl
  | some c =>
    have hmem : c ∈ w.couriers := List.mem_of_find?_eq_some hc
    dsimp only [Option.map_some]
    rw [Courier.ending?_withEnding]
    by_cases hended : c.post.ending?.isSome = true
    · rw [if_pos hended, if_pos hended]
    · rw [if_neg hended, if_neg hended]
      -- The courier that is put back is the one that would be, with another ending if it is to
      -- have one.
      have hmove : ∃ q, (w.withEnding id e).movePost (.post i) (c.withEnding id e).post =
            (q, (w.movePost (.post i) c.post).2.withEnding id e) ∧
          { c.withEnding id e with post := q } =
            ({ c with post := (w.movePost (.post i) c.post).1 } : Courier).withEnding id e := by
        have hcouriers : (w.movePost (.post i) c.post).2.couriers = w.couriers :=
          congrArg (fun x => x.2.couriers) (movePost_withPosts w.couriers (.post i) c.post w)
        have hother := movePost_withPosts (w.couriers.map (Courier.withEnding id e)) (.post i)
        have hworld : (w.movePost (.post i) c.post).2.withPosts
            (w.couriers.map (Courier.withEnding id e)) (w.reached c.post) =
            (w.movePost (.post i) c.post).2.withEnding id e := by
          rw [withEnding_eq, hcouriers, peers_movePost]
        by_cases hid : c.id = id
        · have hpost : (c.withEnding id e).post = c.post.withEnding e := by
            rw [Courier.withEnding, if_pos hid]
          refine ⟨(w.movePost (.post i) c.post).1.withEnding e, ?_, ?_⟩
          · rw [hpost, movePost_withEnding (.post i) (hsent c hmem hid) e, withEnding_eq,
              hother, hworld]
          · rw [Courier.withEnding, Courier.withEnding, if_pos hid, if_pos hid]
        · refine ⟨(w.movePost (.post i) c.post).1, ?_, ?_⟩
          · rw [Courier.withEnding_of_ne hid, withEnding_eq, hother, hworld]
          · rw [Courier.withEnding_of_ne hid]
            exact (if_neg hid).symm
      obtain ⟨q, hq, hput⟩ := hmove
      have hsame : q.ending?.isSome = (w.movePost (.post i) c.post).1.ending?.isSome := by
        have hends :=
          Courier.ending?_withEnding id e { c with post := (w.movePost (.post i) c.post).1 }
        rw [← hput] at hends
        exact hends
      rw [hq]
      dsimp only
      rw [hput, putCourier_withEnding, hsame, Courier.waiter_withEnding]
      split
      · have hcouriers := (couriers_of_withPosts _ (wake_withPosts _ _
          ((w.movePost (.post i) c.post).2.putCourier
            { c with post := (w.movePost (.post i) c.post).1 }) (.task c.waiter)))
        rw [withEnding_eq, withEnding_eq, wake_withPosts, hcouriers.1, hcouriers.2]
      · rfl

end World

namespace Scene

variable {s : Scene} {c : Courier}

/-- A task that has gone looks at no POST. -/
private theorem Sound.unseen (h : s.Sound) (hc : c ∈ s.world.couriers)
    (hgone : ∀ t ∈ s.world.tasks, t.id ≠ c.waiter) :
    ∀ t ∈ s.world.tasks, t.lookout? ≠ some c.id := by
  intro t ht hlook
  have hplace := h.tidy.inPlace t ht
  have hserves : ∃ d ∈ s.world.couriers, d.id = c.id ∧ d.waiter = t.id := by
    unfold Task.lookout? at hlook
    rw [Task.InPlace] at hplace
    cases hst : t.stage with
    | watching v =>
      rw [hst] at hlook hplace
      obtain ⟨-, e, route, -, -, d, hd, hid, hs, -⟩ := hplace
      exact ⟨d, hd, hid.trans (Option.some.inj hlook), hs.waiter⟩
    | awaiting courier =>
      rw [hst] at hlook hplace
      obtain ⟨e, -, -, d, hd, hid, hs⟩ := hplace
      exact ⟨d, hd, hid.trans (Option.some.inj hlook), hs.waiter⟩
    | fresh => rw [hst] at hlook; cases hlook
    | subscribing route i call listener => rw [hst] at hlook; cases hlook
    | armed route sub => rw [hst] at hlook; cases hlook
    | pushing p => rw [hst] at hlook; cases hlook
  obtain ⟨d, hd, hid, hw⟩ := hserves
  rw [h.tidy.courier_unique hd hc hid] at hw
  exact hgone t ht hw.symm

/-- Nothing that can happen tells one ending of an abandoned POST from another. -/
theorem Sound.withEnding_act (h : s.Sound) (hc : c ∈ s.world.couriers)
    (hgone : ∀ t ∈ s.world.tasks, t.id ≠ c.waiter) (hsent : c.post.isUnsent = false) (e : Ending)
    (a : Act) : (s.withEnding c.id e).act a = (s.act a).withEnding c.id e := by
  have hblind : (∀ id, a ≠ .move (.task id)) → (∀ id, a ≠ .move (.post id)) →
      (s.withEnding c.id e).act a = (s.act a).withEnding c.id e := by
    intro htask hpost
    have hopen := World.asOpen_withEnding c.id e s.world
    obtain ⟨hcouriers, hpeers⟩ := couriers_act (s := s) htask hpost
    refine (act_withPosts hopen s.world.peers htask hpost).trans ?_
    rw [withEnding, World.withEnding_eq, hcouriers, hpeers]
    rfl
  cases a with
  | move r =>
    obtain ⟨rs, hrs, hrs'⟩ := takeUp_eq r s.world
    have htake : (s.world.withEnding c.id e).takeUp r = (s.world.takeUp r).withEnding c.id e := by
      rw [World.withEnding_eq, hrs', hrs]
      rfl
    cases r with
    | agent i => exact hblind (by simp) (by simp)
    | post id =>
      have hmove : ((s.world.takeUp (.post id)).withEnding c.id e).moveCourier id =
          ((s.world.takeUp (.post id)).moveCourier id).withEnding c.id e := by
        apply World.moveCourier_withEnding
        intro d hd hid
        rw [hrs] at hd
        rw [h.tidy.courier_unique hd hc hid]
        exact hsent
      exact congrArg (Scene.mk · s.handles) ((congrArg (World.moveCourier id) htake).trans hmove)
    | task id =>
      have hmove : ((s.world.takeUp (.task id)).withEnding c.id e).moveTask id =
          ((s.world.takeUp (.task id)).moveTask id).withEnding c.id e := by
        rw [hrs]
        exact World.moveTask_withEnding (w := { s.world with ready := rs }) (h.tidy.lt c hc).1
          (h.unseen hc hgone)
      exact congrArg (Scene.mk · s.handles) ((congrArg (World.moveTask id) htake).trans hmove)
  | _ => exact hblind (by simp) (by simp)

theorem Sound.withEnding_after (h : s.Sound) (hc : c ∈ s.world.couriers)
    (hgone : ∀ t ∈ s.world.tasks, t.id ≠ c.waiter) (hsent : c.post.isUnsent = false) (e : Ending)
    (acts : List Act) : (s.withEnding c.id e).after acts = (s.after acts).withEnding c.id e := by
  induction acts generalizing s c with
  | nil => rfl
  | cons a acts ih =>
    obtain ⟨-, hgone', -⟩ := h.gone_act (h.tidy.lt c hc).2 hgone a
    obtain ⟨q, hq, honward⟩ := (h.carriesOn hc [a]).there
    have hsent' : q.isUnsent = false := honward.sent hsent
    rw [after_cons, h.withEnding_act hc hgone hsent e a]
    exact ih (h.act a) (c := { c with post := q }) hq hgone' hsent'

/-! ### The whole -/

/-- What a request does itself, what is done to it, and what it is answered bear
nothing on its POST. -/
theorem Sound.bearing_own (h : s.Sound) {p : Post} (hc : { c with post := p } ∈ s.world.couriers)
    {a : Act} (ha : a.Concerns c.waiter ∨ ∃ key payload, a = .publish key payload) :
    s.bearing c a = [] := by
  rcases ha with (rfl | rfl | rfl) | ⟨key, payload, rfl⟩
  · rfl
  · rfl
  · have hposted : s.posted? (.move (.task c.waiter)) = none := by
      rw [posted?]
      cases ht : s.world.task? c.waiter with
      | none => rfl
      | some t =>
        have hmem : t ∈ s.world.tasks := List.mem_of_find?_eq_some ht
        have hid : t.id = c.waiter := by simpa using List.find?_some ht
        rw [Option.bind_some]
        split
        · rfl
        · cases hp : t.push? with
          | none => rfl
          | some q =>
            -- A task that pushes has handed out nothing.
            have hplace := h.tidy.inPlace t hmem
            unfold Task.push? at hp
            rw [Task.InPlace] at hplace
            split at hp
            · rename_i hst hjob
              rw [hst] at hplace
              exact absurd hid.symm (hplace { c with post := p } hc)
            · rename_i hst hjob
              rw [hst] at hplace
              exact absurd hid.symm (hplace { c with post := p } hc)
            · cases hp
    show s.rivals c.post.peer (.move (.task c.waiter)) = []
    rw [rivals, hposted]
    rfl
  · rfl

/-- How little the POST of a courier is to everybody else. -/
structure EndsAside (s : Scene) (c : Courier) : Prop where
  /-- A move of it leaves alone the tasks, what they came to, and the other POSTs. -/
  tasks : (s.act (.move (.post c.id))).world.tasks = s.world.tasks
  ended : (s.act (.move (.post c.id))).world.ended = s.world.ended
  handles : (s.act (.move (.post c.id))).handles = s.handles
  others : ∀ d : Courier, d.id ≠ c.id →
    (d ∈ (s.act (.move (.post c.id))).world.couriers ↔ d ∈ s.world.couriers)
  /-- The hub gets what the peer publishes, and nothing else. -/
  hub : (s.act (.move (.post c.id))).world.hub =
    s.world.hub.offerAll (s.publications (.move (.post c.id)))
  /-- When its task has gone, everything goes on in the same way whatever the ending is. -/
  unheard : (∀ t ∈ s.world.tasks, t.id ≠ c.waiter) →
    ∀ q : Post, { c with post := q } ∈ s.world.couriers → q.isUnsent = false →
    ∀ (e : Ending) (more : List Act),
      (s.withEnding c.id e).after more = (s.after more).withEnding c.id e

theorem Sound.endsAside (h : s.Sound) {p : Post} (hc : { c with post := p } ∈ s.world.couriers) :
    s.EndsAside c := by
  obtain ⟨W, rs, he, hleads, -⟩ := act_effect h.seated (.move (.post c.id))
  obtain ⟨rs₀, hrs, -⟩ := stage_eq s (.move (.post c.id))
  have hcourier : s.world.courier? c.id = some { c with post := p } := h.tidy.courier?_eq hc
  have hunheard : (∀ t ∈ s.world.tasks, t.id ≠ c.waiter) → ∀ q : Post,
      { c with post := q } ∈ s.world.couriers → q.isUnsent = false →
        ∀ (e : Ending) (more : List Act),
          (s.withEnding c.id e).after more = (s.after more).withEnding c.id e :=
    fun hgone q hq hsent e more => h.withEnding_after hq hgone hsent e more
  have halike := hleads.alike
  generalize hhandles : (s.act (.move (.post c.id))).handles = handles at he
  cases he with
  | aside a ha =>
    have hended : p.ending?.isSome := by
      refine ha { c with post := p } ?_
      rw [hrs]
      exact hcourier
    have hpubs : s.publications (.move (.post c.id)) = [] := by
      rw [publications, hcourier]
      exact (World.advanced_of_ended hended).2
    rw [hrs] at halike
    refine ⟨halike.tasks, halike.ended, hhandles, fun d _ => ?_, ?_, hunheard⟩
    · rw [halike.couriers]
    · rw [halike.hub, hpubs]
      rfl
  | carries id d hd hopen =>
    have hsame : d = { c with post := p } := by
      rw [hrs] at hd
      exact Option.some.inj (hd.symm.trans hcourier)
    subst hsame
    have hpubs :
      s.publications (.move (.post c.id)) = (s.stage (.move (.post c.id))).carries p := by
      rw [publications, hcourier, hrs]
      rfl
    refine ⟨?_, ?_, hhandles, fun d' hne => ?_, ?_, hunheard⟩
    · rw [halike.tasks, hrs]
      rfl
    · rw [halike.ended, hrs]
      rfl
    · rw [halike.couriers, hrs]
      constructor
      · intro hd'
        obtain ⟨d₀, hd₀, rfl⟩ := List.mem_map.mp hd'
        split at hne
        · exact absurd rfl hne
        · rename_i hne₀
          rw [if_neg hne₀]
          exact hd₀
      · exact fun hd' => List.mem_map.mpr ⟨d', hd', if_neg hne⟩
    · rw [halike.hub, hpubs, hrs]
      rfl

/-- Nothing that a request does or that is done to it bears on its POST. In two runs in which the
POST is moved, the clock goes on and other POSTs reach the peer in the same way, the POST takes the
same way; if the peer reacts to the body alone, the others are no matter either. In every run the
POST is there, goes on, and is handed to its peer and ends once at most. To all others it is what
its peer publishes, and when its task has gone nothing tells one ending from another. -/
theorem abandoned_wait_leaves_the_post {s₀ : Scene} (hs : s₀.IsOpening) (begun : List Act)
    (heq : s = s₀.after begun) (hc : c ∈ s.world.couriers) :
    (∀ acts a, a.Concerns c.waiter ∨ (∃ key payload, a = .publish key payload) →
      (s.after acts).bearing c a = []) ∧
    (∀ acts acts', s.bearings c acts' = s.bearings c acts → s.CarriesAlike c acts acts') ∧
    (∀ react outlet, s.world.Reacts c.post.peer react outlet → ∀ acts acts' : List Act,
      acts'.filterMap (Act.bearing? c.id) = acts.filterMap (Act.bearing? c.id) →
      s.CarriesAlike c acts acts') ∧
    ∀ acts, s.CarriesOn c acts ∧ (s.after acts).RousesAll ∧ (s.after acts).EndsAside c := by
  have h : s.Sound := heq ▸ hs.sound_after begun
  refine ⟨fun acts a ha => ?_, fun acts acts' hsame => h.carriesAlike hc hsame,
    fun react outlet hr acts acts' hsame => h.carriesAlike_of_reacts hc hr hsame, fun acts => ?_⟩
  · obtain ⟨q, hq, -⟩ := (h.carriesOn hc acts).there
    exact (h.after acts).bearing_own hq ha
  refine ⟨h.carriesOn hc acts, ?_, ?_⟩
  · rw [heq, ← after_append]
    exact hs.rousesAll (begun ++ acts)
  · obtain ⟨q, hq, -⟩ := (h.carriesOn hc acts).there
    exact (h.after acts).endsAside hq

/-- A peer that takes its time, publishes an answer, and then breaks down. -/
def breakingPeer : Peer where
  name := some "x0"
  react _ _ := { delay := 5, publications := [⟨"k", [7]⟩], ending := .crashed "late" }

/-- The request of `firstJob` has just handed out its POST. -/
def posted : Scene :=
  (opening [breakingPeer]).after [.start "t0" firstJob .armed, .move (.task 0), .move (.task 0)]

/-- The POST of the first request. -/
def firstCourier : Courier := ⟨1, 0, { peer := 0, body := [1] }⟩

/-- The request gets its answer, or it is cancelled before; its POST takes the same way, and it is
no matter how it ends. -/
theorem cancelled_request_leaves_its_post :
    let waits : List Act := [.move (.post 1), .ring 5, .move (.post 1), .move (.task 0)]
    let gives : List Act := [.move (.post 1), .cancel 0, .move (.task 0), .ring 5, .move (.post 1)]
    (posted.after waits).world.outcomes 0 = [.delivered [7]] ∧
      (posted.after gives).world.outcomes 0 = [.failed .cancelled] ∧
      posted.CarriesAlike firstCourier waits gives ∧
      ∀ (e : Ending) (more : List Act), (((posted.after gives).withEnding 1 e).after more) =
        ((posted.after gives).after more).withEnding 1 e := by
  have hc : firstCourier ∈ posted.world.couriers := List.mem_singleton_self _
  have hall := abandoned_wait_leaves_the_post (s := posted) (opening_isOpening [breakingPeer]) _
    rfl hc
  intro waits gives
  refine ⟨by with_unfolding_all rfl, by with_unfolding_all rfl,
    hall.2.1 _ _ (by with_unfolding_all rfl), ?_⟩
  obtain ⟨-, -, haside⟩ := hall.2.2.2 gives
  have hgone : ∀ t ∈ (posted.after gives).world.tasks, t.id ≠ firstCourier.waiter := by
    have hnobody : (posted.after gives).world.tasks = [] := by with_unfolding_all rfl
    rw [hnobody]
    exact fun t ht => by cases ht
  have hended : (posted.after gives).world.couriers =
      [{ firstCourier with post := ⟨0, [1], .ended (.crashed "late")⟩ }] := by
    with_unfolding_all rfl
  refine haside.unheard hgone ⟨0, [1], .ended (.crashed "late")⟩ ?_ rfl
  exact hended ▸ List.mem_singleton_self _

end Scene

end Roaming.Simulation
