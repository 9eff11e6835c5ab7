import Roaming.Proofs.Endings

/-!
# Failures of the transport

Where the peer fails as a transport does, a POST to it ends with no other failure
(`World.PostsPlainly`); and a call for a listener is refused by the transport alone, since the calls
of a link are told apart (`World.Seeking`). Every act keeps both up.
-/

set_option autoImplicit false
set_option relaxedAutoImplicit false

namespace Roaming

/-- Whether a POST that ends in this way has failed, if it has, by the transport. -/
def Ending.IsPlain (ending : Ending) : Prop :=
  ∀ f, ending.outcome = .error f → ∃ message, f = .transport message

namespace Simulation

/-! ### POSTs that fail -/

/-- Whether the POSTs of a peer fail by the transport alone. -/
def Peer.IsPlain (peer : Peer) : Prop := ∀ n body, (peer.react n body).ending.IsPlain

/-- Whether a POST fails, if it does, by the transport. -/
def Post.IsPlain (p : Post) : Prop :=
  match p.stage with
  | .unsent => True
  | .underway _ reply => reply.ending.IsPlain
  | .ended ending => ending.IsPlain

/-- Whether all POSTs to a peer fail by the transport alone. -/
structure World.PostsPlainly (w : World) (k : Nat) : Prop where
  peer : ∀ peer : Peer, w.peers[k]? = some peer → peer.IsPlain
  couriers : ∀ c ∈ w.couriers, c.post.peer = k → c.post.IsPlain

theorem World.advanced_isPlain {w : World} {k : Nat} (h : w.PostsPlainly k) {p : Post}
    (hk : p.peer = k) (hp : p.IsPlain) : (w.advanced p).IsPlain := by
  unfold World.advanced
  rw [hk]
  cases hpeer : w.peers[k]? with
  | none => exact hp
  | some peer =>
    have hplain := h.peer peer hpeer
    cases hst : p.stage with
    | unsent => exact hplain _ _
    | ended ending => exact hp
    | underway due reply =>
      rw [Post.IsPlain, hst] at hp
      dsimp only
      split
      · exact hp
      · rw [Post.IsPlain, hst]
        exact hp

namespace Scene

variable {s : Scene}

theorem Sound.postsPlainly_act (h : s.Sound) {k : Nat} (hp : s.world.PostsPlainly k) (a : Act) :
    (s.act a).world.PostsPlainly k := by
  obtain ⟨W, rs, he, hleads, -⟩ := act_effect h.seated a
  obtain ⟨rs₀, hrs, -⟩ := stage_eq s a
  constructor
  · intro peer' hpeer'
    have hsame := hleads.alike.peers k
    rw [he.peers, hrs, hpeer', Option.map_some] at hsame
    obtain ⟨peer, hpeer, heq⟩ := Option.map_eq_some_iff.mp hsame.symm
    obtain ⟨-, hreact, -⟩ := Prod.mk.inj heq |>.imp_right Prod.mk.inj
    intro n body
    rw [← hreact]
    exact hp.peer peer hpeer n body
  · intro c' hc' hk
    rw [hleads.alike.couriers] at hc'
    rcases he.courier_origin hc' with ⟨c, hc, hid, -, hpeer, -⟩ |
      ⟨t, ht, stage, isBusy, peer, body, alarm, -, -, rfl⟩
    · -- What the POST has become is told by its number.
      rw [hrs] at hc
      have hck : c.post.peer = k := hpeer.symm.trans hk
      have hplain := hp.couriers c hc hck
      rw [← hleads.alike.couriers] at hc'
      rcases h.courier_fate hc a with ⟨hkept, -⟩ | ⟨-, hmoved⟩
      · rw [(h.act a).tidy.courier_unique hc' hkept hid]
        exact hplain
      · rw [(h.act a).tidy.courier_unique hc' hmoved hid]
        exact World.advanced_isPlain hp hck hplain
    · trivial

end Scene

/-! ### Calls for a listener -/

namespace World

/-- Whether the links of `w` are those of `w'`, where their calls have gone on. -/
structure LinksGoOn (w w' : World) : Prop where
  places : w'.stations.length = w.stations.length
  links : ∀ (i : Nat) (st : Station), w.stations[i]? = some st →
    ∃ st' : Station, w'.stations[i]? = some st' ∧ st.link.Onward st'.link

/-- Whether the links are in order, and a task that waits for its listener has asked one for it. -/
structure Seeking (w : World) : Prop where
  orderly : ∀ (i : Nat) (st : Station), w.stations[i]? = some st → st.link.Orderly
  called : ∀ t ∈ w.tasks, ∀ route i call listener, t.stage = .subscribing route i call listener →
    ∃ st : Station, w.stations[i]? = some st ∧ st.link.Seeks call

variable {w w' w₁ : World}

theorem LinksGoOn.of_same (h : w'.stations = w.stations) : w.LinksGoOn w' :=
  ⟨by rw [h], fun _ st hst => ⟨st, by rw [h, hst], .refl _⟩⟩

theorem LinksGoOn.trans (h : w.LinksGoOn w₁) (h' : w₁.LinksGoOn w') : w.LinksGoOn w' := by
  refine ⟨h'.places.trans h.places, fun i st hst => ?_⟩
  obtain ⟨st₁, hst₁, hon⟩ := h.links i st hst
  obtain ⟨st₂, hst₂, hon'⟩ := h'.links i st₁ hst₁
  exact ⟨st₂, hst₂, hon.trans hon'⟩

theorem LinksGoOn.link_of (h : w.LinksGoOn w') {i : Nat} {st' : Station}
    (hst' : w'.stations[i]? = some st') :
    ∃ st : Station, w.stations[i]? = some st ∧ st.link.Onward st'.link := by
  have hi := (List.getElem?_eq_some_iff.mp hst').1
  rw [h.places] at hi
  obtain ⟨x, hx, hon⟩ := h.links i _ (List.getElem?_eq_getElem hi)
  rw [hst'] at hx
  exact ⟨_, List.getElem?_eq_getElem hi, Option.some.inj hx ▸ hon⟩

theorem Alike.linksGoOn (h : w.Alike w') : w.LinksGoOn w' := by
  refine ⟨h.places, fun i st hst => ?_⟩
  obtain ⟨st', hst', hextends⟩ := h.stations i st hst
  exact ⟨st', hst', hextends.onward⟩

theorem linksGoOn_onListeners (place : Option Nat) (f : Listeners → Listeners) (w : World) :
    w.LinksGoOn (w.onListeners place f) := by
  cases place with
  | none => exact .of_same rfl
  | some i =>
    refine ⟨List.length_modify _ _ _, fun j st hst => ?_⟩
    simp only [onListeners, List.getElem?_modify, hst]
    refine ⟨_, rfl, ?_⟩
    split
    · exact .same rfl rfl rfl rfl rfl
    · exact .refl _

theorem linksGoOn_left (t : Task) (o : Option Outcome) (w : World) : w.LinksGoOn (w.left t o) := by
  have hwithout : ∀ sub, w.LinksGoOn (w.without sub) := by
    intro sub
    unfold without
    split
    · exact linksGoOn_onListeners _ _ w
    · exact .of_same rfl
  unfold left
  split
  · exact (hwithout _).trans (.of_same rfl)
  · exact .of_same rfl

theorem linksGoOn_gained (id : WorkId) (gain : Gain) (w : World) :
    w.LinksGoOn (w.gained id gain) := by
  cases gain with
  | nothing => exact .of_same rfl
  | listener place key => exact linksGoOn_onListeners place _ w
  | courier peer body alarm => cases alarm <;> exact .of_same rfl

end World

theorem Effect.linksGoOn {w W : World} {hs hs' : List (Option Subscription)} {a : Act}
    {rs : List Runnable} (he : Effect w hs a W hs' rs) : w.LinksGoOn W := by
  cases he with
  | aside a ha => exact .of_same rfl
  | starts name job cancellation => exact .of_same rfl
  | turns id t W ht hW =>
    cases hW with
    | cleared hd => exact w.linksGoOn_left t none
    | still hd hidle => exact .of_same rfl
    | leaves hd pubs o hl =>
      have hoffered : w.LinksGoOn (w.offered pubs) := w.linksGoOn_onListeners none _
      exact hoffered.trans (World.linksGoOn_left t o _)
    | moves hd stage isBusy gain hm => exact (w.linksGoOn_gained t.id gain).trans (.of_same rfl)
  | carries id c hc hopen =>
    have hoffered : w.LinksGoOn (w.offered (w.carries c.post)) := w.linksGoOn_onListeners none _
    exact hoffered.trans (.of_same rfl)
  | cancels id t ht => exact .of_same rfl
  | drops id t ht => exact .of_same rfl
  | rings time => exact .of_same rfl
  | publishes key payload => exact w.linksGoOn_onListeners none _
  | closes => exact w.linksGoOn_onListeners none _
  | listens place key l sub hl hseat hkey => exact w.linksGoOn_onListeners place _
  | receives n sub hn =>
    unfold World.taken
    split
    · exact w.linksGoOn_onListeners _ _
    · exact .of_same rfl
  | releases n sub hn =>
    unfold World.without
    split
    · exact w.linksGoOn_onListeners _ _
    · exact .of_same rfl

namespace World

theorem stations_onLink {i : Nat} {st : Station} {w : World} (hst : w.stations[i]? = some st)
    (f : Redis.Link → Redis.Link × Log) :
    (w.onLink i f).stations = w.stations.set i { st with link := (f st.link).1 } := by
  unfold onLink
  rw [hst]
  dsimp only
  rw [stations_wake, putStation, stations_wakeAll]
  rfl

/-- The link that a task calls is asked for its listener. -/
theorem stations_moveTask_of_link {w : World} {t : Task} (ht : w.task? t.id = some t)
    (hd : (t.isDropped && !t.isBusy) = false) (hst : t.stage = .fresh) {e : Errand}
    (he : t.job.errand? = some e) {route : AnswerRoute Medium}
    (hroute : e.caller.answers = some route)
    {i : Nat} (hmedium : route.medium = .link i) {st : Station} (hs : w.stations[i]? = some st) :
    (w.moveTask t.id).stations[i]? = some { st with link := st.link.subscribe e.key } := by
  have hbegins : ∀ w₁ : World, w₁.stations = w.stations →
      (w₁.beginExchange t e).stations[i]? = some { st with link := st.link.subscribe e.key } := by
    intro w₁ hsame
    have hs₁ : w₁.stations[i]? = some st := hsame ▸ hs
    have hset := stations_onLink hs₁ fun l => (l.subscribe e.key, [])
    simp only [beginExchange, hroute, hmedium, hs₁, goOn, putTask]
    rw [hset, List.getElem?_set_self (List.getElem?_eq_some_iff.mp hs₁).1]
  rw [moveTask, ht]
  simp only [hd, hst, Bool.false_eq_true, if_false]
  unfold begin
  cases hjob : t.job with
  | exchange caller key body =>
    rw [hjob] at he
    cases he
    exact hbegins w rfl
  | request actor op r =>
    rw [hjob] at he
    cases he
    exact hbegins _ rfl
  | push actor op answer => rw [hjob] at he; cases he
  | refused refusal => rw [hjob] at he; cases he

end World

namespace Scene

variable {s : Scene}

theorem Sound.links_act (h : s.Sound) (a : Act) : s.world.LinksGoOn (s.act a).world := by
  obtain ⟨W, rs, he, hleads, -⟩ := act_effect h.seated a
  obtain ⟨rs₀, hrs, -⟩ := stage_eq s a
  have hstage : s.world.LinksGoOn (s.stage a) := by
    rw [hrs]
    exact .of_same rfl
  exact (hstage.trans he.linksGoOn).trans hleads.alike.linksGoOn

theorem Sound.seeking_act (h : s.Sound) (hseek : s.world.Seeking) (a : Act) :
    (s.act a).world.Seeking := by
  have hlinks := h.links_act a
  have hkept : ∀ {i : Nat} {call : Redis.CallId} {st : Station}, s.world.stations[i]? = some st →
      st.link.Seeks call → ∃ st' : Station, (s.act a).world.stations[i]? = some st' ∧
      st'.link.Seeks call := by
    intro i call st hst hcall
    obtain ⟨st', hst', hon⟩ := hlinks.links i st hst
    exact ⟨st', hst', hcall.onward hon⟩
  constructor
  · intro i st' hst'
    obtain ⟨st, hst, hon⟩ := hlinks.link_of hst'
    exact (hseek.orderly i st hst).onward hon
  · intro t' ht' route i call listener hsub
    obtain ⟨W, rs, he, hleads, -⟩ := act_effect h.seated a
    obtain ⟨rs₀, hrs, -⟩ := stage_eq s a
    rw [hleads.alike.tasks] at ht'
    rcases he.origin (h.seated.stage a) ht' with ⟨t, ht, hfate⟩ | ⟨name, job, cancellation, -, rfl⟩
    · have htask := (mem_stage a).mp ht
      have hold : t.stage = .subscribing route i call listener →
          ∃ st' : Station, (s.act a).world.stations[i]? = some st' ∧ st'.link.Seeks call := by
        intro hst
        obtain ⟨st, hs, hcall⟩ := hseek.called t htask route i call listener hst
        exact hkept hs hcall
      cases hfate with
      | kept hne => exact hold hsub
      | cancelled ha => exact hold hsub
      | dropped ha => exact hold hsub
      | still ha hd hidle hW => exact hold hsub
      | moved ha hd stage isBusy gain hm hW =>
        cases hm with
        | waits hw => exact hold hsub
        | calls e route' j st hst he' hroute hmedium hs =>
          cases hsub
          subst ha
          rw [hrs] at hs
          have hfind : (s.stage (.move (.task t.id))).task? t.id = some t := by
            rw [hrs]
            exact h.seated.task?_eq htask
          have hs' : (s.stage (.move (.task t.id))).stations[i]? = some st := by
            rw [hrs]
            exact hs
          exact ⟨_, World.stations_moveTask_of_link hfind hd hst he' hroute hmedium hs',
            (hseek.orderly i st hs).seeks_subscribe e.key⟩
        | asks | enlists | feigns | confirms | launches | looks | pushes => cases hsub
    · cases hsub

end Scene

end Simulation

end Roaming
