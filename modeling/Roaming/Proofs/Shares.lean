import Roaming.Proofs.Delivery

/-!
# What one request has to do with the others

Of all that happens, a request over the hub is concerned by its own turns, by its POST, by the
clock, and by what is published on its key. `Scene.trace` lists this without any numbers, and
`Plan.step` tells what each of it does to the request, again without any numbers. The request stands
in the scene as `Plan.steps` tells (`Scene.Shows`), whoever else is there.
-/

set_option autoImplicit false
set_option relaxedAutoImplicit false

namespace Roaming.Simulation

open Roaming.Text (Bytes)

/-- What concerns a request. -/
inductive Concern where
  /-- Its task is moved. -/
  | turn
  /-- Its POST is moved. -/
  | carry
  | ring (time : Nat)
  | cancel
  | drop
  /-- A payload is published on its key, but not by its own POST. -/
  | payload (p : Bytes)
deriving DecidableEq

namespace Scene

/-- What in an act concerns the task `id`, whose answer comes on a key. -/
def concerns (id : WorkId) (key : Key) (a : Act) (s : Scene) : List Concern :=
  match a with
  | .ring time => [.ring time]
  | .cancel i => if i = id then [.cancel] else []
  | .drop i => if i = id then [.drop] else []
  | .move (.task i) =>
    if i = id then [.turn] else (payloadsOn key (s.publications a)).map .payload
  | .move (.post i) =>
    if (s.world.courier? i).any (·.waiter = id) then [.carry]
    else (payloadsOn key (s.publications a)).map .payload
  | a => (payloadsOn key (s.publications a)).map .payload

/-- What in a run concerns the task `id`, whose answer comes on a key. -/
def trace (id : WorkId) (key : Key) : List Act → Scene → List Concern
  | [], _ => []
  | a :: acts, s => s.concerns id key a ++ trace id key acts (s.act a)

end Scene

/-! ### A request by itself -/

/-- How far a request has come. -/
inductive Phase where
  | fresh
  | armed
  | watching (sendPending : Bool) (since : Nat)
  | gone (outcome : Option Outcome)

/-- A request by itself: how far it and its POST have come, and what is in its inbox. -/
structure Share where
  now : Nat
  cancellation : Cancellation
  isDropped : Bool
  isBusy : Bool
  phase : Phase := .fresh
  post : Option Post := none
  inbox : Inbox := []

/-- What there is to see for a request that waits until a time. -/
def Share.view (due : Nat) (x : Share) : View where
  inbox := x.inbox.sight true
  sent := x.post.bind Post.ending?
  expired := decide (due ≤ x.now)
  cancelled := x.cancellation == .done

/-- A request over the hub, and how the peer that it goes to reacts to a body. -/
structure Plan where
  job : Job
  errand : Errand
  route : AnswerRoute Medium
  hub : String
  react : Bytes → Reply
  outlet : Outlet
  job_errand : job.errand? = some errand
  answers : errand.caller.answers = some route
  overHub : route.medium = .hub hub

namespace Plan

variable (p : Plan)

def watch (sendPending : Bool) : Watch :=
  ⟨p.errand.key, p.route.timeout, p.route.policy, sendPending⟩

/-- What a POST publishes on the hub if it is moved at a time. -/
def carries (now : Nat) (q : Post) : List Publication :=
  match q.stage with
  | .underway due reply => if due ≤ now ∧ p.outlet = .hub then reply.publications else []
  | _ => []

/-- A POST after it was moved at a time. -/
def advanced (now : Nat) (q : Post) : Post :=
  match q.stage with
  | .unsent =>
    { q with stage := .underway (now + (p.react q.body).delay) (p.react q.body) }
  | .underway due reply => if due ≤ now then { q with stage := .ended reply.ending } else q
  | .ended _ => q

/-- A request after its task was moved. -/
def turn (x : Share) : Share :=
  match x.phase with
  | .fresh =>
    if x.isDropped && !x.isBusy then { x with phase := .gone none }
    else { x with phase := .armed, isBusy := true, inbox := [] }
  | .armed =>
    { x with
      phase := .watching true x.now
      isBusy := true
      post := some ⟨p.errand.caller.peer, p.errand.body, .unsent⟩ }
  | .watching sendPending since =>
    if x.isDropped && !x.isBusy then { x with phase := .gone none }
    else
      match (p.watch sendPending).verdict (x.view (since + p.route.timeout.millis)) with
      | some r => { x with phase := .gone (some (p.job.outcome r)) }
      | none =>
        { x with
          phase := .watching (sendPending && (x.post.bind Post.ending?).isNone) since
          isBusy := false }
  | .gone _ => x

/-- A request after its POST was moved. -/
def carry (x : Share) : Share :=
  match x.post with
  | none => x
  | some q =>
    { x with
      post := some (p.advanced x.now q)
      inbox := x.inbox.offerAll (payloadsOn p.errand.key (p.carries x.now q)) }

/-- A request after something that concerns it. -/
def step (x : Share) : Concern → Share
  | .turn => p.turn x
  | .carry => p.carry x
  | .ring time => { x with now := max x.now time }
  | .cancel => { x with cancellation := .done }
  | .drop => { x with isDropped := true }
  | .payload q => { x with inbox := x.inbox.offer q }

/-- A request after all that concerns it. -/
def steps (cs : List Concern) (x : Share) : Share := cs.foldl p.step x

theorem steps_append (cs cs' : List Concern) (x : Share) :
    p.steps (cs ++ cs') x = p.steps cs' (p.steps cs x) :=
  List.foldl_append

theorem steps_payloads (payloads : List Bytes) (x : Share) :
    p.steps (payloads.map .payload) x = { x with inbox := x.inbox.offerAll payloads } := by
  induction payloads generalizing x with
  | nil => rfl
  | cons q rest ih => exact ih { x with inbox := x.inbox.offer q }

end Plan

/-! ### A request in a scene -/

/-- Whether a peer reacts to a POST by its body alone. -/
def World.Reacts (w : World) (i : Nat) (react : Bytes → Reply) (outlet : Outlet) : Prop :=
  ∃ peer, w.peers[i]? = some peer ∧ peer.outlet = outlet ∧ ∀ n body, peer.react n body = react body

/-- Whether this is the POST of a task, if it has handed out one. -/
def World.PostOf (w : World) (id : WorkId) : Option Post → Prop
  | none => w.NoCourier id
  | some q => ∃ c ∈ w.couriers, c.waiter = id ∧ c.post = q

/-- Whether a task is at a stage, given the hub and the inbox that its listener is to have. -/
inductive Phase.Fits (p : Plan) (hub : Hub) (inbox : Inbox) : Phase → Stage → Prop where
  | fresh : Fits p hub inbox .fresh .fresh
  | armed (l : ListenerId) (hon : l ∈ hub.registry.on p.errand.key) (hinbox : hub.inbox l = inbox) :
      Fits p hub inbox .armed (.armed p.route (.hub p.errand.key l))
  | watching (sendPending : Bool) (since : Nat) (l : ListenerId) (courier : WorkId)
      (hon : l ∈ hub.registry.on p.errand.key) (hinbox : hub.inbox l = inbox) :
      Fits p hub inbox (.watching sendPending since)
        (.watching ⟨p.watch sendPending, .hub p.errand.key l, since, courier⟩)

/-- Whether the task of a request stands in a scene as its share tells. -/
inductive Scene.ShowsTask (s : Scene) (p : Plan) (id : WorkId) (x : Share) : Prop where
  | there (t : Task) (ht : t ∈ s.world.tasks) (hid : t.id = id) (hjob : t.job = p.job)
      (hcancel : t.cancellation = x.cancellation) (hdropped : t.isDropped = x.isDropped)
      (hbusy : t.isBusy = x.isBusy) (hfits : x.phase.Fits p s.world.hub x.inbox t.stage)
  | gone (o : Option Outcome) (hphase : x.phase = .gone o) (hgone : ∀ u ∈ s.world.tasks, u.id ≠ id)
      (ho : s.world.outcomes id = o.toList)

/-- Whether a request stands in a scene as its share tells. -/
structure Scene.Shows (s : Scene) (p : Plan) (id : WorkId) (x : Share) : Prop where
  lt : id < s.world.nextId
  reacts : s.world.Reacts p.errand.caller.peer p.react p.outlet
  now : s.world.now = x.now
  post : s.world.PostOf id x.post
  peer : ∀ q, x.post = some q → q.peer = p.errand.caller.peer
  task : s.ShowsTask p id x

theorem Phase.Fits.congr {p : Plan} {hub hub' : Hub} {inbox inbox' : Inbox} {phase : Phase}
    {t : Task} (h : phase.Fits p hub inbox t.stage)
    (hl : ∀ l, t.subscription? = some (.hub p.errand.key l) → l ∈ hub.registry.on p.errand.key →
      hub.inbox l = inbox → l ∈ hub'.registry.on p.errand.key ∧ hub'.inbox l = inbox') :
    phase.Fits p hub' inbox' t.stage := by
  generalize hst : t.stage = stage at h
  cases h with
  | fresh => exact .fresh
  | armed l hon hinbox =>
    obtain ⟨hon', hinbox'⟩ := hl l (by rw [Task.subscription?, hst]) hon hinbox
    exact .armed l hon' hinbox'
  | watching sendPending since l courier hon hinbox =>
    obtain ⟨hon', hinbox'⟩ := hl l (by rw [Task.subscription?, hst]) hon hinbox
    exact .watching sendPending since l courier hon' hinbox'

namespace World

variable {w w' : World}

theorem Reacts.of_samePeers {i : Nat} {react : Bytes → Reply} {outlet : Outlet}
    (h : w.Reacts i react outlet) (hsame : SamePeers w.peers w'.peers) :
    w'.Reacts i react outlet := by
  obtain ⟨peer, hpeer, houtlet, hreact⟩ := h
  have hi := hsame i
  rw [hpeer, Option.map_some] at hi
  obtain ⟨peer', hpeer', heq⟩ := Option.map_eq_some_iff.mp hi
  obtain ⟨-, hr, ho⟩ := Prod.mk.inj heq |>.imp_right Prod.mk.inj
  refine ⟨peer', hpeer', ho.trans houtlet, fun n body => ?_⟩
  rw [hr]
  exact hreact n body

theorem Reacts.advanced {p : Plan} {q : Post} (h : w.Reacts q.peer p.react p.outlet) :
    w.advanced q = p.advanced w.now q ∧ w.carries q = p.carries w.now q := by
  obtain ⟨peer, hpeer, houtlet, hreact⟩ := h
  unfold World.advanced World.carries Plan.advanced Plan.carries
  rw [hpeer]
  cases hst : q.stage with
  | unsent =>
    simp only [hreact]
    exact ⟨trivial, trivial⟩
  | underway due reply =>
    simp only [houtlet]
    exact ⟨trivial, trivial⟩
  | ended ending => exact ⟨rfl, rfl⟩

end World

namespace Scene

variable {s : Scene} {p : Plan} {id : WorkId} {x : Share}

/-! ### The clock, the peers and the POST -/

theorem Sound.reacts_act (h : s.Sound) {i : Nat} {react : Bytes → Reply} {outlet : Outlet}
    (hr : s.world.Reacts i react outlet) (a : Act) : (s.act a).world.Reacts i react outlet := by
  obtain ⟨W, rs, he, hleads, -⟩ := act_effect h.seated a
  obtain ⟨rs₀, hrs, -⟩ := stage_eq s a
  have hpeers : W.peers = s.world.peers := by rw [he.peers, hrs]
  refine hr.of_samePeers ?_
  rw [← hpeers]
  exact hleads.alike.peers

/-- The POST of a task stays as it is while neither the task nor the POST is moved. -/
theorem Sound.postOf_kept (h : s.Sound) {post : Option Post} (hp : s.world.PostOf id post) {a : Act}
    (hnone : post = none → (s.act a).world.NoCourier id)
    (hcarry : ∀ c ∈ s.world.couriers, c.waiter = id → a ≠ .move (.post c.id)) :
    (s.act a).world.PostOf id post := by
  cases post with
  | none => exact hnone rfl
  | some q =>
    obtain ⟨c, hc, hw, hq⟩ := hp
    rcases h.courier_fate hc a with ⟨hc', -⟩ | ⟨ha, -⟩
    · exact ⟨c, hc', hw, hq⟩
    · exact absurd ha (hcarry c hc hw)

theorem Sound.postOf_carry (h : s.Sound) {c : Courier} (hc : c ∈ s.world.couriers)
    (hr : s.world.Reacts c.post.peer p.react p.outlet) :
    (s.act (.move (.post c.id))).world.PostOf c.waiter (some (p.advanced s.world.now c.post)) ∧
      s.publications (.move (.post c.id)) = p.carries s.world.now c.post := by
  refine ⟨?_, ?_⟩
  · rcases h.courier_fate hc (.move (.post c.id)) with ⟨hc', hended⟩ | ⟨-, hc'⟩
    · refine ⟨c, hc', rfl, ?_⟩
      rw [← hr.advanced.1, (World.advanced_of_ended (hended rfl)).1]
    · exact ⟨_, hc', rfl, hr.advanced.1⟩
  · simp only [publications, h.tidy.courier?_eq hc]
    exact hr.advanced.2

/-! ### The task -/

/-- A task that stays at its stage has its listener where it was; the inbox gets what is
published. -/
private theorem Sound.fits_act (h : s.Sound) {phase : Phase} {inbox : Inbox} {t t' : Task} {a : Act}
    (hfits : phase.Fits p s.world.hub inbox t.stage) (ht : t ∈ s.world.tasks)
    (ht' : t' ∈ (s.act a).world.tasks) (hid : t'.id = t.id) (hst : t'.stage = t.stage)
    (hclose : a ≠ .close) :
    phase.Fits p (s.act a).world.hub
      (inbox.offerAll (payloadsOn p.errand.key (s.publications a))) t'.stage := by
  rw [hst]
  refine hfits.congr fun l hsub hon hinbox => ?_
  have hsub' : t'.subscription? = some (.hub p.errand.key l) := by
    rcases Task.stage_of_hub hsub with ⟨route, harmed⟩ | ⟨v, hwatching, hv⟩
    · rw [Task.subscription?, hst, harmed]
    · rw [Task.subscription?, hst, hwatching]
      exact congrArg some hv
  have hheld : s.Has (.task t.id) (.hub p.errand.key l) := ⟨t, ht, rfl, hsub⟩
  have hheld' : (s.act a).Has (.task t.id) (.hub p.errand.key l) := ⟨t', ht', hid, hsub'⟩
  refine ⟨h.seated.on_act hheld hheld' hclose hon, ?_⟩
  rw [h.seated.inbox_act hheld hheld' (by simp), if_pos hon, hinbox]

/-- An act that is not about the task leaves it where it is; its inbox gets what is published. -/
private theorem Sound.showsTask_kept (h : s.Sound) (hlt : id < s.world.nextId)
    (hx : s.ShowsTask p id x) {a : Act} (ha : ¬ a.Concerns id) (hclose : a ≠ .close) :
    (s.act a).ShowsTask p id
      { x with inbox := x.inbox.offerAll (payloadsOn p.errand.key (s.publications a)) } := by
  cases hx with
  | gone o hphase hgone ho =>
    obtain ⟨-, hgone', hsame⟩ := h.gone_act hlt hgone a
    exact .gone o hphase hgone' (hsame.trans ho)
  | there t ht hid hjob hcancel hdropped hbusy hfits =>
    subst hid
    have hkept : t ∈ (s.act a).world.tasks := by
      cases h.leaving ht a with
      | leaves pubs o ha' hd hl hgone ho => exact absurd (.inr (.inr ha')) ha
      | cleared ha' hd hgone ho => exact absurd (.inr (.inr ha')) ha
      | stays t' W hfate hW ht' ho =>
        cases hfate with
        | kept hne => exact ht'
        | cancelled ha' => exact absurd (.inl ha') ha
        | dropped ha' => exact absurd (.inr (.inl ha')) ha
        | still ha' hd hidle hW' => exact ht'
        | moved ha' hd stage isBusy gain hm hW' => exact absurd (.inr (.inr ha')) ha
    exact .there t hkept rfl hjob hcancel hdropped hbusy
      (h.fits_act hfits ht hkept rfl rfl hclose)

/-! ### Its turns -/

/-- A task hands out a POST only by a turn in which its listener is registered. -/
private theorem Sound.noCourier_turn (h : s.Sound) (hnone : s.world.NoCourier id) {a : Act}
    (ht : ∀ t ∈ s.world.tasks, t.id = id → a = .move (.task id) →
      (∀ e, t.job.errand? = some e → e.caller.answers ≠ none) ∧
        ∀ route sub, t.stage ≠ .armed route sub) : (s.act a).world.NoCourier id := by
  intro c hc hw
  obtain ⟨ha, t, htmem, htid, e, he, -, hcan⟩ := h.courier_new hnone hc hw
  obtain ⟨hasync, hst⟩ := ht t htmem htid ha
  rcases hcan with ⟨route, sub, harmed⟩ | hsync
  · exact hst route sub harmed
  · exact hasync e he hsync

private theorem async (p : Plan) {t : Task} (hjob : t.job = p.job) :
    ∀ e, t.job.errand? = some e → e.caller.answers ≠ none := by
  intro e he hsync
  rw [hjob, p.job_errand] at he
  cases he
  rw [p.answers] at hsync
  cases hsync

/-- What a request sees that waits. -/
private theorem Sound.view_of_shows (h : s.Sound) (hx : s.Shows p id x) {t : Task}
    (ht : t ∈ s.world.tasks) (hid : t.id = id) (hcancel : t.cancellation = x.cancellation)
    {sendPending : Bool} {since : Nat} {l : ListenerId} {courier : WorkId}
    (hst : t.stage = .watching ⟨p.watch sendPending, .hub p.errand.key l, since, courier⟩)
    (hon : l ∈ s.world.hub.registry.on p.errand.key) (hinbox : s.world.hub.inbox l = x.inbox) :
    s.world.view t ⟨p.watch sendPending, .hub p.errand.key l, since, courier⟩ =
        x.view (since + p.route.timeout.millis) ∧
      s.world.ending? courier = x.post.bind Post.ending? ∧ x.post ≠ none := by
  obtain ⟨-, e, route, -, -, c, hc, hcid, hserves, -⟩ := h.tidy.watching ht hst
  have hwaiter : c.waiter = id := hserves.waiter.trans hid
  have hpost : x.post = some c.post := by
    have hp := hx.post
    cases hpost : x.post with
    | none =>
      rw [hpost] at hp
      exact absurd hwaiter (hp c hc)
    | some q =>
      rw [hpost] at hp
      obtain ⟨d, hd, hw, rfl⟩ := hp
      rw [h.courier_unique hc hd (hwaiter.trans hw.symm)]
  have hending : s.world.ending? courier = x.post.bind Post.ending? := by
    have hcourier : c.id = courier := hcid
    rw [← hcourier, h.tidy.ending?_eq hc, hpost, Option.bind_some]
  have hopen : s.world.hub.isOpen l = true :=
    (Listeners.isOpen_iff h.seated.hub).mpr ⟨p.errand.key, hon⟩
  have hsight : s.world.sight (.hub p.errand.key l) = x.inbox.sight true := by
    change s.world.hub.sight l = _
    rw [Listeners.sight, hopen, hinbox]
  refine ⟨?_, hending, ?_⟩
  · rw [World.view, Share.view, hsight, hending, hx.now, hcancel]
    rfl
  · rw [hpost]
    exact Option.some_ne_none _

/-- The listener of a request does not change by a turn of the request. -/
private theorem Sound.listener_turn (h : s.Sound) {t t' : Task} {e : Errand} {key : Key}
    {l : ListenerId} (ht : t ∈ s.world.tasks) (he : t.job.errand? = some e)
    (hsub : t.subscription? = some (.hub key l))
    (ht' : t' ∈ (s.act (.move (.task t.id))).world.tasks) (hid : t'.id = t.id)
    (hsub' : t'.subscription? = some (.hub key l)) (hon : l ∈ s.world.hub.registry.on key) :
    l ∈ (s.act (.move (.task t.id))).world.hub.registry.on key ∧
      (s.act (.move (.task t.id))).world.hub.inbox l = s.world.hub.inbox l := by
  have hheld : s.Has (.task t.id) (.hub key l) := ⟨t, ht, rfl, hsub⟩
  have hheld' : (s.act (.move (.task t.id))).Has (.task t.id) (.hub key l) := ⟨t', ht', hid, hsub'⟩
  refine ⟨h.seated.on_act hheld hheld' (by simp) hon, ?_⟩
  rw [h.seated.inbox_act hheld hheld' (by simp), if_pos hon, h.publications_own ht he,
    payloadsOn_nil, Inbox.offerAll_nil]

theorem Sound.shows_turn (h : s.Sound) (hx : s.Shows p id x) :
    (s.act (.move (.task id))).Shows p id (p.turn x) := by
  have hlt : id < (s.act (.move (.task id))).world.nextId :=
    Nat.lt_of_lt_of_le hx.lt (h.nextId_act _)
  have hreacts := h.reacts_act hx.reacts (.move (.task id))
  have hnow : (s.act (.move (.task id))).world.now = x.now := (h.now_act _).trans hx.now
  -- Unless it hands out its POST now, it has the POST that it had.
  have hpost : (x.post = none → (s.act (.move (.task id))).world.NoCourier id) →
      (s.act (.move (.task id))).world.PostOf id x.post :=
    fun hnone => h.postOf_kept hx.post hnone (by simp)
  cases hx.task with
  | gone o hphase hgone ho =>
    obtain ⟨-, hgone', hsame⟩ := h.gone_act hx.lt hgone (.move (.task id))
    have hturn : p.turn x = x := by
      rw [Plan.turn, hphase]
    rw [hturn]
    refine ⟨hlt, hreacts, hnow, hpost fun hnone => ?_, hx.peer,
      .gone o hphase hgone' (hsame.trans ho)⟩
    have hp := hx.post
    rw [hnone] at hp
    exact h.noCourier_turn hp fun t ht hid => absurd hid (hgone t ht)
  | there t ht hid hjob hcancel hdropped hbusy hfits =>
    subst hid
    have he : t.job.errand? = some p.errand := by rw [hjob, p.job_errand]
    generalize hst : t.stage = stage at hfits
    generalize hphase : x.phase = phase at hfits
    have hunarmed : (∀ route sub, t.stage ≠ .armed route sub) → x.post = none →
        (s.act (.move (.task t.id))).world.NoCourier t.id := by
      intro hne hnone
      have hp := hx.post
      rw [hnone] at hp
      refine h.noCourier_turn hp fun u hu huid _ => ?_
      rw [h.seated.task_unique hu ht huid]
      exact ⟨async p hjob, hne⟩
    cases hfits with
    | fresh =>
      have hpost' := hpost (hunarmed (by simp [hst]))
      rw [Plan.turn, hphase]
      dsimp only
      by_cases hd : (x.isDropped && !x.isBusy) = true
      · rw [if_pos hd]
        rw [← hdropped, ← hbusy] at hd
        refine ⟨hlt, hreacts, hnow, hpost', hx.peer, ?_⟩
        obtain ⟨hgone, ho⟩ := h.cleared_act ht hd
        exact .gone none rfl hgone ho
      · rw [if_neg hd]
        have hd' : (t.isDropped && !t.isBusy) = false := by
          rw [hdropped, hbusy]
          simpa using hd
        obtain ⟨l, ht', hon, hinbox⟩ := h.begins_on_hub ht hst he p.answers p.overHub hd'
        exact ⟨hlt, hreacts, hnow, hpost', hx.peer,
          .there _ ht' rfl hjob hcancel hdropped rfl (.armed l hon hinbox)⟩
    | armed l hon hinbox =>
      obtain ⟨ht', hc'⟩ := h.launches ht hst he
      obtain ⟨hon', hinbox'⟩ := h.listener_turn ht he (by rw [Task.subscription?, hst]) ht'
        rfl rfl hon
      rw [Plan.turn, hphase]
      refine ⟨hlt, hreacts, hnow, ⟨_, hc', rfl, rfl⟩, fun q hq => ?_, ?_⟩
      · cases hq
        rfl
      · refine .there _ ht' rfl hjob hcancel hdropped rfl ?_
        rw [hx.now]
        exact .watching true x.now l _ hon' (hinbox'.trans hinbox)
    | watching sendPending since l courier hon hinbox =>
      obtain ⟨hview, hending, hposted⟩ := h.view_of_shows hx ht rfl hcancel hst hon hinbox
      have hpost' := hpost fun hnone => absurd hnone hposted
      have hends := h.endsByVerdict ht hst
      rw [Plan.turn, hphase]
      dsimp only
      by_cases hd : (x.isDropped && !x.isBusy) = true
      · rw [if_pos hd]
        rw [← hdropped, ← hbusy] at hd
        obtain ⟨ho, hgone⟩ := hends.cleared hd
        exact ⟨hlt, hreacts, hnow, hpost', hx.peer, .gone none rfl hgone ho⟩
      · rw [if_neg hd]
        have hd' : (t.isDropped && !t.isBusy) = false := by
          rw [hdropped, hbusy]
          simpa using hd
        have hverdict := congrArg (p.watch sendPending).verdict hview
        cases hv : (p.watch sendPending).verdict (x.view (since + p.route.timeout.millis)) with
        | some r =>
          obtain ⟨ho, hgone⟩ := hends.ends hd' r (hverdict.trans hv)
          rw [hjob] at ho
          exact ⟨hlt, hreacts, hnow, hpost', hx.peer, .gone _ rfl hgone ho⟩
        | none =>
          obtain ⟨-, ht'⟩ := hends.goesOn hd' (hverdict.trans hv)
          obtain ⟨hon', hinbox'⟩ :=
            h.listener_turn ht he (by rw [Task.subscription?, hst]) ht' rfl rfl hon
          refine ⟨hlt, hreacts, hnow, hpost', hx.peer,
            .there _ ht' rfl hjob hcancel hdropped rfl ?_⟩
          rw [hending]
          exact .watching _ since l courier hon' (hinbox'.trans hinbox)

/-! ### Every act -/

theorem Sound.shows_carry (h : s.Sound) (hx : s.Shows p id x) {c : Courier}
    (hc : c ∈ s.world.couriers) (hw : c.waiter = id) :
    (s.act (.move (.post c.id))).Shows p id (p.carry x) := by
  subst hw
  have hpost : x.post = some c.post := by
    have hp := hx.post
    cases hpost : x.post with
    | none =>
      rw [hpost] at hp
      exact absurd rfl (hp c hc)
    | some q =>
      rw [hpost] at hp
      obtain ⟨d, hd, hw, rfl⟩ := hp
      rw [h.courier_unique hc hd hw.symm]
  have hreacts : s.world.Reacts c.post.peer p.react p.outlet := by
    rw [hx.peer c.post hpost]
    exact hx.reacts
  obtain ⟨hpost', hpubs⟩ := h.postOf_carry hc hreacts
  have htask := h.showsTask_kept hx.lt hx.task (a := .move (.post c.id))
    (by rintro (ha | ha | ha) <;> cases ha) (by simp)
  rw [Plan.carry, hpost]
  refine ⟨Nat.lt_of_lt_of_le hx.lt (h.nextId_act _), h.reacts_act hx.reacts _,
    (h.now_act _).trans hx.now, hx.now ▸ hpost', fun q hq => ?_, ?_⟩
  · rw [← Option.some.inj hq, ← hx.peer c.post hpost]
    unfold Plan.advanced
    split
    · rfl
    · split <;> rfl
    · rfl
  · rw [hpubs, hx.now] at htask
    cases htask with
    | there t ht hid hjob hcancel hdropped hbusy hfits =>
      exact .there t ht hid hjob hcancel hdropped hbusy hfits
    | gone o hphase hgone ho => exact .gone o hphase hgone ho

/-- An act that is neither about the task nor about its POST. -/
private theorem Sound.shows_other (h : s.Sound) (hx : s.Shows p id x) {a : Act}
    (ha : ¬ a.Concerns id) (hcarry : ∀ c ∈ s.world.couriers, c.waiter = id → a ≠ .move (.post c.id))
    (hclose : a ≠ .close) (hring : ∀ time, a ≠ .ring time) :
    (s.act a).Shows p id
      { x with inbox := x.inbox.offerAll (payloadsOn p.errand.key (s.publications a)) } where
  lt := Nat.lt_of_lt_of_le hx.lt (h.nextId_act a)
  reacts := h.reacts_act hx.reacts a
  now := by
    rw [h.now_act, ← hx.now]
    split
    · rename_i time
      exact absurd rfl (hring time)
    · rfl
  post := by
    refine h.postOf_kept hx.post (fun hnone => ?_) hcarry
    have hp := hx.post
    rw [hnone] at hp
    exact h.noCourier_turn hp fun t _ _ hmove => absurd (.inr (.inr hmove)) ha
  peer := hx.peer
  task := h.showsTask_kept hx.lt hx.task ha hclose

/-- A task that is cancelled is marked, if it is still there. -/
private theorem Sound.shows_cancel (h : s.Sound) (hx : s.Shows p id x) :
    (s.act (.cancel id)).Shows p id { x with cancellation := .done } where
  lt := Nat.lt_of_lt_of_le hx.lt (h.nextId_act _)
  reacts := h.reacts_act hx.reacts _
  now := (h.now_act _).trans hx.now
  post := by
    refine h.postOf_kept hx.post (fun hnone => ?_) (by simp)
    have hp := hx.post
    rw [hnone] at hp
    exact h.noCourier_turn hp fun t _ _ hmove => by cases hmove
  peer := hx.peer
  task := by
    cases hx.task with
    | gone o hphase hgone ho =>
      obtain ⟨-, hgone', hsame⟩ := h.gone_act hx.lt hgone (.cancel id)
      exact .gone o hphase hgone' (hsame.trans ho)
    | there t ht hid hjob hcancel hdropped hbusy hfits =>
      subst hid
      have ht' := h.seated.cancel_mem ht
      exact .there _ ht' rfl hjob rfl hdropped hbusy (h.fits_act hfits ht ht' rfl rfl (by simp))

/-- So is one that is dropped. -/
private theorem Sound.shows_drop (h : s.Sound) (hx : s.Shows p id x) :
    (s.act (.drop id)).Shows p id { x with isDropped := true } where
  lt := Nat.lt_of_lt_of_le hx.lt (h.nextId_act _)
  reacts := h.reacts_act hx.reacts _
  now := (h.now_act _).trans hx.now
  post := by
    refine h.postOf_kept hx.post (fun hnone => ?_) (by simp)
    have hp := hx.post
    rw [hnone] at hp
    exact h.noCourier_turn hp fun t _ _ hmove => by cases hmove
  peer := hx.peer
  task := by
    cases hx.task with
    | gone o hphase hgone ho =>
      obtain ⟨-, hgone', hsame⟩ := h.gone_act hx.lt hgone (.drop id)
      exact .gone o hphase hgone' (hsame.trans ho)
    | there t ht hid hjob hcancel hdropped hbusy hfits =>
      subst hid
      have ht' := h.seated.drop_mem ht
      exact .there _ ht' rfl hjob hcancel rfl hbusy (h.fits_act hfits ht ht' rfl rfl (by simp))

private theorem Sound.shows_ring (h : s.Sound) (hx : s.Shows p id x) (time : Nat) :
    (s.act (.ring time)).Shows p id { x with now := max x.now time } where
  lt := Nat.lt_of_lt_of_le hx.lt (h.nextId_act _)
  reacts := h.reacts_act hx.reacts _
  now := by rw [h.now_act, ← hx.now]
  post := by
    refine h.postOf_kept hx.post (fun hnone => ?_) (by simp)
    have hp := hx.post
    rw [hnone] at hp
    exact h.noCourier_turn hp fun t _ _ hmove => by cases hmove
  peer := hx.peer
  task := by
    cases h.showsTask_kept hx.lt hx.task (a := .ring time)
      (by rintro (ha | ha | ha) <;> cases ha) (by simp) with
    | gone o hphase hgone ho => exact .gone o hphase hgone ho
    | there t ht hid hjob hcancel hdropped hbusy hfits =>
      exact .there t ht hid hjob hcancel hdropped hbusy hfits

/-- An act does to a request what the concerns in it tell, and nothing else. -/
theorem Sound.shows_act (h : s.Sound) (hx : s.Shows p id x) {a : Act} (hclose : a ≠ .close) :
    (s.act a).Shows p id (p.steps (s.concerns id p.errand.key a) x) := by
  have hother : ¬ a.Concerns id →
      (∀ c ∈ s.world.couriers, c.waiter = id → a ≠ .move (.post c.id)) → (∀ time, a ≠ .ring time) →
      (s.act a).Shows p id
        (p.steps ((payloadsOn p.errand.key (s.publications a)).map .payload) x) := by
    intro ha hcarry hring
    rw [p.steps_payloads]
    exact h.shows_other hx ha hcarry hclose hring
  cases a with
  | ring time => exact h.shows_ring hx time
  | cancel i =>
    by_cases hi : i = id
    · subst hi
      rw [concerns, if_pos rfl]
      exact h.shows_cancel hx
    · rw [concerns, if_neg hi]
      exact hother (by rintro (ha | ha | ha) <;> cases ha; exact hi rfl) (by simp) (by simp)
  | drop i =>
    by_cases hi : i = id
    · subst hi
      rw [concerns, if_pos rfl]
      exact h.shows_drop hx
    · rw [concerns, if_neg hi]
      exact hother (by rintro (ha | ha | ha) <;> cases ha; exact hi rfl) (by simp) (by simp)
  | move r =>
    cases r with
    | task i =>
      by_cases hi : i = id
      · subst hi
        rw [concerns, if_pos rfl]
        exact h.shows_turn hx
      · rw [concerns, if_neg hi]
        exact hother (by rintro (ha | ha | ha) <;> cases ha; exact hi rfl) (by simp) (by simp)
    | post i =>
      by_cases hown : (s.world.courier? i).any (·.waiter = id) = true
      · rw [concerns, if_pos hown]
        obtain ⟨c, hc, hw⟩ := (Option.any_eq_true _ _).mp hown
        have hi : c.id = i := by simpa using List.find?_some hc
        subst hi
        exact h.shows_carry hx (List.mem_of_find?_eq_some hc) (of_decide_eq_true hw)
      · rw [concerns, if_neg hown]
        refine hother (by rintro (ha | ha | ha) <;> cases ha) (fun c hc hw ha => hown ?_) (by simp)
        cases ha
        rw [h.tidy.courier?_eq hc]
        simpa using hw
    | agent i => exact hother (by rintro (ha | ha | ha) <;> cases ha) (by simp) (by simp)
  | close => exact absurd rfl hclose
  | start name job cancellation =>
    exact hother (by rintro (ha | ha | ha) <;> cases ha) (by simp) (by simp)
  | publish key payload => exact hother (by rintro (ha | ha | ha) <;> cases ha) (by simp) (by simp)
  | listen place key => exact hother (by rintro (ha | ha | ha) <;> cases ha) (by simp) (by simp)
  | receive n => exact hother (by rintro (ha | ha | ha) <;> cases ha) (by simp) (by simp)
  | release n => exact hother (by rintro (ha | ha | ha) <;> cases ha) (by simp) (by simp)
  | useLink i u => exact hother (by rintro (ha | ha | ha) <;> cases ha) (by simp) (by simp)
  | bring sendings => exact hother (by rintro (ha | ha | ha) <;> cases ha) (by simp) (by simp)
  | cut i => exact hother (by rintro (ha | ha | ha) <;> cases ha) (by simp) (by simp)

/-- While nobody closes the hub, a request stands in the scene as what concerns it tells. -/
theorem Sound.shows_after (h : s.Sound) (hx : s.Shows p id x) {acts : List Act}
    (hclose : .close ∉ acts) :
    (s.after acts).Shows p id (p.steps (s.trace id p.errand.key acts) x) := by
  induction acts generalizing s x with
  | nil => exact hx
  | cons a acts ih =>
    have ha : a ≠ .close := fun ha => hclose (ha ▸ List.mem_cons_self)
    rw [trace, p.steps_append]
    exact ih (h.act a) (h.shows_act hx ha) fun hmem => hclose (List.mem_cons_of_mem _ hmem)

end Scene

end Roaming.Simulation
