import Roaming.Proofs.Frames
import Roaming.Proofs.Shares

/-!
# The way of a POST

Once a POST is handed out, three things bear on it: that it is moved, that the clock goes on, and
that another POST reaches its peer (`Scene.bearings`). They tell what it does, move by move
(`Scene.deeds`), whatever becomes of the task that waits for it.
-/

set_option autoImplicit false
set_option relaxedAutoImplicit false

namespace Roaming.Simulation

open Roaming.Text (Bytes)

/-- Whether a POST is still to be handed to its peer. -/
def Post.isUnsent (p : Post) : Bool :=
  match p.stage with
  | .unsent => true
  | _ => false

/-- What bears on a POST. -/
inductive Bearing where
  /-- It is moved. -/
  | carry
  | ring (time : Nat)
  /-- Another POST reaches its peer. -/
  | rival
deriving DecidableEq

/-- One move of a POST: when it was, the POST before and after it, what it put out on the hub, and
where its peer puts out what it publishes. -/
structure Deed where
  time : Nat
  before : Post
  after : Post
  published : List Publication
  outlet : Option Outlet

/-- Whether a move brought a POST to something. -/
def Deed.brings (q : Post → Bool) (d : Deed) : Bool := !q d.before && q d.after

/-- Whether a POST was handed to its peer by a move. -/
def Deed.hands (d : Deed) : Bool := d.brings (!·.isUnsent)

/-- Whether a POST ended by a move. -/
def Deed.ends (d : Deed) : Bool := d.brings (·.ending?.isSome)

/-- Whether a POST has gone on to what another is: the one has the same peer and the same body, and
what the peer has of it is neither handed over again nor replied to in another way. -/
structure Post.Onward (p q : Post) : Prop where
  peer : q.peer = p.peer
  body : q.body = p.body
  stage : match p.stage with
    | .unsent => True
    | .underway due reply => q.stage = .underway due reply ∨ q.stage = .ended reply.ending
    | .ended ending => q.stage = .ended ending

namespace Scene

/-- Whether another POST reaches a peer by an act. -/
def rivals (peer : Nat) (a : Act) (s : Scene) : List Bearing :=
  if (s.posted? a).any fun p => p.peer = peer && p.isUnsent then [.rival] else []

/-- What in an act bears on the POST of a courier. -/
def bearing (c : Courier) (a : Act) (s : Scene) : List Bearing :=
  match a with
  | .ring time => [.ring time]
  | .move (.post id) => if id = c.id then [.carry] else s.rivals c.post.peer a
  | a => s.rivals c.post.peer a

/-- What in a run bears on the POST of a courier. -/
def bearings (c : Courier) : List Act → Scene → List Bearing
  | [], _ => []
  | a :: acts, s => s.bearing c a ++ bearings c acts (s.act a)

/-- What the POST of a courier does in an act. -/
def deed (c : Courier) (a : Act) (s : Scene) : List Deed :=
  match a with
  | .move (.post id) =>
    if id = c.id then
      match s.world.courier? id, (s.act a).world.courier? id with
      | some d, some d' =>
        [⟨s.world.now, d.post, d'.post, s.publications a,
          (s.world.peers[d.post.peer]?).map (·.outlet)⟩]
      | _, _ => []
    else []
  | _ => []

/-- What the POST of a courier does in a run, in order. -/
def deeds (c : Courier) : List Act → Scene → List Deed
  | [], _ => []
  | a :: acts, s => s.deed c a ++ deeds c acts (s.act a)

end Scene

/-! ### A POST by itself -/

/-- A POST by itself, with its peer and the time. -/
structure Passage where
  now : Nat
  peer : Option Peer
  post : Post

namespace Passage

/-- A POST after it was moved. -/
def advanced (x : Passage) : Post :=
  match x.peer, x.post.stage with
  | some peer, .unsent =>
    let reply := peer.react peer.posts x.post.body
    { x.post with stage := .underway (x.now + reply.delay) reply }
  | some _, .underway due reply =>
    if due ≤ x.now then { x.post with stage := .ended reply.ending } else x.post
  | _, _ => x.post

/-- What a POST puts out on the hub if it is moved. -/
def carries (x : Passage) : List Publication :=
  match x.peer, x.post.stage with
  | some peer, .underway due reply =>
    if due ≤ x.now ∧ peer.outlet = .hub then reply.publications else []
  | _, _ => []

/-- A POST and its peer after something that bears on it. -/
def step (x : Passage) : Bearing → Passage
  | .carry =>
    { x with
      peer := if x.post.isUnsent then x.peer.map Peer.reached else x.peer
      post := x.advanced }
  | .ring time => { x with now := max x.now time }
  | .rival => { x with peer := x.peer.map Peer.reached }

/-- What a POST does by something that bears on it. -/
def deed (x : Passage) : Bearing → List Deed
  | .carry => [⟨x.now, x.post, x.advanced, x.carries, x.peer.map (·.outlet)⟩]
  | _ => []

/-- A POST and its peer after all that bears on it. -/
def steps (bs : List Bearing) (x : Passage) : Passage := bs.foldl step x

/-- What a POST does by all that bears on it, in order. -/
def deeds : List Bearing → Passage → List Deed
  | [], _ => []
  | b :: bs, x => x.deed b ++ deeds bs (x.step b)

theorem steps_append (bs bs' : List Bearing) (x : Passage) :
    x.steps (bs ++ bs') = (x.steps bs).steps bs' :=
  List.foldl_append

theorem deeds_append (bs bs' : List Bearing) (x : Passage) :
    x.deeds (bs ++ bs') = x.deeds bs ++ (x.steps bs).deeds bs' := by
  induction bs generalizing x with
  | nil => rfl
  | cons b bs ih =>
    rw [List.cons_append, deeds, deeds, ih, List.append_assoc]
    rfl

theorem deeds_cons (b : Bearing) (bs : List Bearing) (x : Passage) :
    x.deeds (b :: bs) = x.deed b ++ (x.step b).deeds bs := rfl

end Passage

theorem Post.Onward.refl (p : Post) : p.Onward p where
  peer := rfl
  body := rfl
  stage := by cases hst : p.stage <;> simp

theorem Post.Onward.trans {p q r : Post} (h : p.Onward q) (h' : q.Onward r) : p.Onward r where
  peer := h'.peer.trans h.peer
  body := h'.body.trans h.body
  stage := by
    have hst := h.stage
    have hst' := h'.stage
    cases hp : p.stage with
    | unsent => trivial
    | ended ending =>
      rw [hp] at hst
      dsimp only at hst ⊢
      rw [hst] at hst'
      exact hst'
    | underway due reply =>
      rw [hp] at hst
      dsimp only at hst ⊢
      rcases hst with hst | hst
      · rw [hst] at hst'
        exact hst'
      · rw [hst] at hst'
        exact .inr hst'

/-- What a peer has of a POST it does not give back. -/
theorem Post.Onward.sent {p q : Post} (h : p.Onward q) (hp : p.isUnsent = false) :
    q.isUnsent = false := by
  have hstage := h.stage
  unfold Post.isUnsent at hp ⊢
  cases hst : p.stage with
  | unsent => rw [hst] at hp; cases hp
  | underway due reply =>
    rw [hst] at hstage
    rcases hstage with h | h <;> rw [h]
  | ended ending =>
    rw [hst] at hstage
    rw [hstage]

theorem Post.Onward.ended {p q : Post} (h : p.Onward q) (hp : p.ending?.isSome = true) :
    q.ending?.isSome = true := by
  have hstage := h.stage
  unfold Post.ending? at hp ⊢
  cases hst : p.stage with
  | unsent => rw [hst] at hp; cases hp
  | underway due reply => rw [hst] at hp; cases hp
  | ended ending =>
    rw [hst] at hstage
    rw [hstage]
    rfl

namespace Passage

variable (x : Passage)

theorem onward_advanced : x.post.Onward x.advanced := by
  unfold advanced
  split
  · rename_i hst
    exact ⟨rfl, rfl, by rw [hst]; trivial⟩
  · rename_i due reply hpeer hst
    split
    · exact ⟨rfl, rfl, by rw [hst]; exact .inr rfl⟩
    · exact .refl x.post
  · exact .refl x.post

theorem onward_step (b : Bearing) : x.post.Onward (x.step b).post := by
  cases b with
  | carry => exact x.onward_advanced
  | ring time => exact .refl x.post
  | rival => exact .refl x.post

theorem onward_steps (bs : List Bearing) : x.post.Onward (x.steps bs).post := by
  induction bs generalizing x with
  | nil => exact .refl x.post
  | cons b bs ih => exact (x.onward_step b).trans (ih (x.step b))

/-- Nothing is handed over but what was not, and it carries what it had from the start. -/
theorem mem_deeds {bs : List Bearing} {d : Deed} (hd : d ∈ x.deeds bs) :
    x.post.Onward d.before ∧ (d.published ≠ [] → d.ends = true) := by
  induction bs generalizing x with
  | nil => cases hd
  | cons b bs ih =>
    rw [deeds_cons] at hd
    rcases List.mem_append.mp hd with hd | hd
    · cases b with
      | ring time => cases hd
      | rival => cases hd
      | carry =>
        rw [List.mem_singleton.mp hd]
        refine ⟨.refl x.post, fun hpubs => ?_⟩
        unfold Deed.ends Deed.brings advanced
        unfold carries at hpubs
        dsimp only at hpubs ⊢
        split at hpubs
        · rename_i peer due reply hpeer hst
          split at hpubs
          · rename_i hdue
            simp only [hpeer, hst]
            rw [if_pos hdue.1]
            simp [Post.ending?, hst]
          · exact absurd rfl hpubs
        · exact absurd rfl hpubs
    · obtain ⟨honward, hpubs⟩ := ih (x.step b) hd
      exact ⟨(x.onward_step b).trans honward, hpubs⟩

/-- What a POST does not go back on it comes to once at most. -/
theorem countP_brings {q : Post → Bool} (hq : ∀ p p' : Post, p.Onward p' → q p = true → q p' = true)
    (bs : List Bearing) : (x.deeds bs).countP (Deed.brings q) ≤ (!q x.post).toNat := by
  induction bs generalizing x with
  | nil => exact Nat.zero_le _
  | cons b bs ih =>
    have hrest := ih (x.step b)
    rw [deeds_cons, List.countP_append]
    cases b with
    | ring time => simpa [deed, step] using hrest
    | rival => simpa [deed, step] using hrest
    | carry =>
      have hkept := hq x.post x.advanced x.onward_advanced
      rw [deed, List.countP_singleton]
      change _ ≤ (!q x.advanced).toNat at hrest
      change (if (!q x.post && q x.advanced) = true then 1 else 0) + _ ≤ _
      cases hpost : q x.post with
      | true =>
        rw [hkept hpost] at hrest
        simpa using hrest
      | false =>
        cases hadvanced : q x.advanced with
        | true =>
          rw [hadvanced] at hrest
          exact Nat.add_le_add_left hrest 1
        | false =>
          rw [hadvanced] at hrest
          exact Nat.le_trans (Nat.le_of_eq (Nat.zero_add _)) hrest

theorem countP_hands (bs : List Bearing) : (x.deeds bs).countP Deed.hands ≤ 1 := by
  refine Nat.le_trans (x.countP_brings (q := fun p => !p.isUnsent) (fun p p' h hp => ?_) bs)
    (Bool.toNat_le _)
  rw [Bool.not_eq_true'] at hp ⊢
  exact h.sent hp

theorem countP_ends (bs : List Bearing) : (x.deeds bs).countP Deed.ends ≤ 1 :=
  Nat.le_trans (x.countP_brings (q := fun p => p.ending?.isSome) (fun _ _ h => h.ended) bs)
    (Bool.toNat_le _)

/-! ### Peers that react to the body alone -/

/-- Whether two POSTs by themselves are the same, and have a peer that reacts to a body alone. -/
structure Like (x y : Passage) : Prop where
  now : y.now = x.now
  post : y.post = x.post
  peer : ∃ peer peer', x.peer = some peer ∧ y.peer = some peer' ∧ peer'.outlet = peer.outlet ∧
    ∀ n n' body, peer'.react n' body = peer.react n body

variable {x} {y : Passage}

theorem Like.deed (h : x.Like y) : y.advanced = x.advanced ∧ y.deed .carry = x.deed .carry := by
  obtain ⟨peer, peer', hpeer, hpeer', houtlet, hreact⟩ := h.peer
  have hadvanced : y.advanced = x.advanced := by
    unfold advanced
    rw [hpeer, hpeer', h.post, h.now]
    cases x.post.stage with
    | unsent =>
      dsimp only
      rw [hreact peer.posts]
    | underway due reply => rfl
    | ended ending => rfl
  have hcarries : y.carries = x.carries := by
    unfold carries
    rw [hpeer, hpeer', h.post, h.now]
    cases x.post.stage with
    | unsent => rfl
    | underway due reply =>
      dsimp only
      rw [houtlet]
    | ended ending => rfl
  refine ⟨hadvanced, ?_⟩
  unfold Passage.deed
  rw [hadvanced, hcarries, h.now, h.post, hpeer, hpeer', Option.map_some, Option.map_some, houtlet]

theorem Like.reached (h : x.Like y) :
    ({ x with peer := x.peer.map Peer.reached } : Passage).Like y where
  now := h.now
  post := h.post
  peer := by
    obtain ⟨peer, peer', hpeer, hpeer', houtlet, hreact⟩ := h.peer
    exact ⟨peer.reached, peer', by rw [hpeer]; rfl, hpeer', houtlet, hreact⟩

theorem Like.step (h : x.Like y) (b : Bearing) : (x.step b).Like (y.step b) := by
  obtain ⟨peer, peer', hpeer, hpeer', houtlet, hreact⟩ := h.peer
  have hreached : ∃ r r', x.peer.map Peer.reached = some r ∧ y.peer.map Peer.reached = some r' ∧
      r'.outlet = r.outlet ∧ ∀ n n' body, r'.react n' body = r.react n body :=
    ⟨peer.reached, peer'.reached, by rw [hpeer]; rfl, by rw [hpeer']; rfl, houtlet, hreact⟩
  cases b with
  | ring time => exact ⟨congrArg (max · time) h.now, h.post, h.peer⟩
  | rival => exact ⟨h.now, h.post, hreached⟩
  | carry =>
    refine ⟨h.now, h.deed.1, ?_⟩
    change ∃ r r', (if x.post.isUnsent then x.peer.map Peer.reached else x.peer) = some r ∧
      (if y.post.isUnsent then y.peer.map Peer.reached else y.peer) = some r' ∧ _
    rw [h.post]
    split
    · exact hreached
    · exact h.peer

/-- For such a peer it is no matter how many POSTs of others reach it. -/
theorem Like.without_rivals (h : x.Like y) (bs : List Bearing) :
    y.deeds (bs.filter (· ≠ .rival)) = x.deeds bs ∧
      (y.steps (bs.filter (· ≠ .rival))).post = (x.steps bs).post := by
  induction bs generalizing x y with
  | nil => exact ⟨rfl, h.post⟩
  | cons b bs ih =>
    by_cases hb : b = .rival
    · subst hb
      exact ih h.reached
    · rw [List.filter_cons_of_pos (by simpa using hb), deeds_cons, deeds_cons]
      obtain ⟨hdeeds, hpost⟩ := ih (h.step b)
      refine ⟨?_, hpost⟩
      rw [hdeeds]
      cases b with
      | carry => rw [h.deed.2]
      | ring time => rfl
      | rival => exact absurd rfl hb

end Passage

namespace World

variable {w : World}

/-- A POST in a world, by itself. -/
def passage (p : Post) (w : World) : Passage := ⟨w.now, w.peers[p.peer]?, p⟩

theorem advanced_eq (p : Post) (w : World) : w.advanced p = (w.passage p).advanced := rfl

theorem carries_eq (p : Post) (w : World) : w.carries p = (w.passage p).carries := rfl

/-- A peer gets one more POST if one is moved that was to be handed to it. -/
theorem getElem?_reached (p : Post) (w : World) (i : Nat) :
    (w.reached p)[i]? =
      if (p.peer = i && p.isUnsent) = true then w.peers[i]?.map Peer.reached else w.peers[i]? := by
  unfold reached Post.isUnsent
  by_cases hi : p.peer = i
  · subst hi
    cases hpeer : w.peers[p.peer]? with
    | none => cases p.stage <;> simp [hpeer]
    | some peer =>
      obtain ⟨hlt, -⟩ := List.getElem?_eq_some_iff.mp hpeer
      cases p.stage with
      | unsent => simp [hlt]
      | underway due reply => simpa using hpeer
      | ended ending => simpa using hpeer
  · cases w.peers[p.peer]? with
    | none => simp [hi]
    | some peer => cases p.stage <;> simp [hi]

end World

namespace Scene

variable {s : Scene} {c : Courier} {x : Passage}

/-- Whether the POST of a courier stands in a scene as it does by itself. -/
structure Passes (s : Scene) (c : Courier) (x : Passage) : Prop where
  there : { c with post := x.post } ∈ s.world.couriers
  eq : s.world.passage x.post = x
  peer : x.post.peer = c.post.peer

theorem passes_of_mem (hc : c ∈ s.world.couriers) : s.Passes c (s.world.passage c.post) :=
  ⟨hc, rfl, rfl⟩

theorem Sound.courier?_of_passes (h : s.Sound) (hx : s.Passes c x) :
    s.world.courier? c.id = some { c with post := x.post } :=
  h.tidy.courier?_eq hx.there

/-- The peer of a POST is reached by what bears on the POST. -/
private theorem peer_act (hx : s.Passes c x) (a : Act) :
    (s.act a).world.peers[x.post.peer]? =
      if (s.posted? a).any fun p => p.peer = c.post.peer && p.isUnsent then x.peer.map Peer.reached
      else x.peer := by
  have hpeer : s.world.peers[x.post.peer]? = x.peer := congrArg Passage.peer hx.eq
  rw [peers_act]
  cases s.posted? a with
  | none => exact hpeer
  | some p =>
    rw [Option.map_some, Option.getD_some, World.getElem?_reached, hpeer, hx.peer]
    rfl

private theorem Sound.passes_carry (h : s.Sound) (hx : s.Passes c x) :
    (s.act (.move (.post c.id))).Passes c (x.steps (s.bearing c (.move (.post c.id)))) ∧
      s.deed c (.move (.post c.id)) = x.deeds (s.bearing c (.move (.post c.id))) := by
  have hcourier : s.world.courier? c.id = some { c with post := x.post } := h.courier?_of_passes hx
  have hadvanced : s.world.advanced x.post = x.advanced := by rw [World.advanced_eq, hx.eq]
  have hnow : s.world.now = x.now := congrArg Passage.now hx.eq
  have hthere : { c with post := x.advanced } ∈ (s.act (.move (.post c.id))).world.couriers := by
    rcases h.courier_fate hx.there (.move (.post c.id)) with ⟨hc', hended⟩ | ⟨-, hc'⟩
    · rw [← hadvanced, (World.advanced_of_ended (hended rfl)).1]
      exact hc'
    · rw [← hadvanced]
      exact hc'
  have hsame : x.advanced.peer = c.post.peer := by
    rw [← hadvanced, (World.peer_advanced x.post s.world).1]
    exact hx.peer
  have hpeer := peer_act hx (.move (.post c.id))
  have hposted : s.posted? (.move (.post c.id)) = some x.post := by
    rw [posted?, hcourier]
    rfl
  have hrival : (s.posted? (.move (.post c.id))).any (fun p => p.peer = c.post.peer && p.isUnsent) =
      x.post.isUnsent := by
    simp [hposted, hx.peer]
  rw [hrival, hx.peer, ← hsame] at hpeer
  have hnow' : (s.act (.move (.post c.id))).world.now = x.now := (h.now_act _).trans hnow
  refine ⟨?_, ?_⟩
  · rw [bearing, if_pos rfl]
    exact ⟨hthere, congrArg₂ (Passage.mk · · x.advanced) hnow' hpeer, hsame⟩
  · have hcourier' : (s.act (.move (.post c.id))).world.courier? c.id =
        some { c with post := x.advanced } := (h.act _).tidy.courier?_eq hthere
    have hpubs : s.publications (.move (.post c.id)) = x.carries := by
      rw [publications, hcourier]
      show s.world.carries x.post = _
      rw [World.carries_eq, hx.eq]
    have hx_peer : s.world.peers[x.post.peer]? = x.peer := congrArg Passage.peer hx.eq
    rw [deed, if_pos rfl, hcourier, hcourier', bearing, if_pos rfl]
    simp only [Passage.deeds, Passage.deed, hpubs, hnow, hx_peer, List.append_nil]

/-- An act does to a POST what of it bears on the POST, and nothing else. -/
theorem Sound.passes_act (h : s.Sound) (hx : s.Passes c x) (a : Act) :
    (s.act a).Passes c (x.steps (s.bearing c a)) ∧ s.deed c a = x.deeds (s.bearing c a) := by
  have hnow := h.now_act a
  have hpeer := peer_act hx a
  have hx_now : s.world.now = x.now := congrArg Passage.now hx.eq
  -- Unless it is moved, a POST stays as it is, and its peer may be reached by another.
  have hkept : a ≠ .move (.post c.id) → (∀ time, a ≠ .ring time) →
      (s.act a).Passes c (x.steps (s.rivals c.post.peer a)) ∧
      [] = x.deeds (s.rivals c.post.peer a) := by
    intro hcarry hring
    have hthere : { c with post := x.post } ∈ (s.act a).world.couriers := by
      rcases h.courier_fate hx.there a with ⟨hc', -⟩ | ⟨ha, -⟩
      · exact hc'
      · exact absurd ha hcarry
    have hnow' : (s.act a).world.now = x.now := by
      rw [hnow, ← hx_now]
      split
      · rename_i time
        exact absurd rfl (hring time)
      · rfl
    unfold rivals
    by_cases hrival : (s.posted? a).any (fun p => p.peer = c.post.peer && p.isUnsent) = true
    · rw [if_pos hrival] at hpeer ⊢
      refine ⟨⟨hthere, ?_, hx.peer⟩, rfl⟩
      exact congrArg₂ (Passage.mk · · x.post) hnow' hpeer
    · rw [if_neg hrival] at hpeer ⊢
      refine ⟨⟨hthere, ?_, hx.peer⟩, rfl⟩
      exact congrArg₂ (Passage.mk · · x.post) hnow' hpeer
  cases a with
  | ring time =>
    refine ⟨⟨?_, ?_, hx.peer⟩, rfl⟩
    · rcases h.courier_fate hx.there (.ring time) with ⟨hc', -⟩ | ⟨ha, -⟩
      · exact hc'
      · cases ha
    · rw [hx_now] at hnow
      exact congrArg₂ (Passage.mk · · x.post) hnow hpeer
  | move r =>
    cases r with
    | task id => exact hkept (by simp) (by simp)
    | agent i => exact hkept (by simp) (by simp)
    | post id =>
      by_cases hid : id = c.id
      · subst hid
        exact h.passes_carry hx
      · rw [bearing, if_neg hid, deed, if_neg hid]
        exact hkept (fun ha => hid (by cases ha; rfl)) (by simp)
  | _ => exact hkept (by simp) (by simp)

/-- A run does to a POST what of it bears on the POST, and nothing else. -/
theorem Sound.passes_after (h : s.Sound) (hx : s.Passes c x) (acts : List Act) :
    (s.after acts).Passes c (x.steps (s.bearings c acts)) ∧
      s.deeds c acts = x.deeds (s.bearings c acts) := by
  induction acts generalizing s x with
  | nil => exact ⟨hx, rfl⟩
  | cons a acts ih =>
    obtain ⟨hact, hdeed⟩ := h.passes_act hx a
    obtain ⟨hafter, hdeeds⟩ := ih (h.act a) hact
    rw [bearings, Passage.steps_append, Passage.deeds_append, deeds, hdeed, hdeeds]
    exact ⟨hafter, rfl⟩

/-! ### Two runs -/

/-- Whether the POST of a courier takes the same way in two runs. -/
structure CarriesAlike (s : Scene) (c : Courier) (acts acts' : List Act) : Prop where
  deeds : s.deeds c acts' = s.deeds c acts
  post : (s.after acts').world.courier? c.id = (s.after acts).world.courier? c.id

/-- How the POST of a courier goes its way in a run. -/
structure CarriesOn (s : Scene) (c : Courier) (acts : List Act) : Prop where
  /-- It is there, and has gone on from where it was. -/
  there : ∃ q, { c with post := q } ∈ (s.after acts).world.couriers ∧ c.post.Onward q
  /-- No other is made for its task. -/
  sole : ∀ d ∈ (s.after acts).world.couriers, d.waiter = c.waiter → d.id = c.id
  /-- It is handed to its peer once at most, and ends once at most. -/
  handed : (s.deeds c acts).countP Deed.hands ≤ 1
  ended : (s.deeds c acts).countP Deed.ends ≤ 1
  /-- Each move is one of the POST as it was handed out, and it puts out something only if it
  ends. -/
  moves : ∀ d ∈ s.deeds c acts, c.post.Onward d.before ∧ (d.published ≠ [] → d.ends = true)

theorem Sound.carriesAlike_of (h : s.Sound) (hc : c ∈ s.world.couriers) {acts acts' : List Act}
    (hdeeds : (s.world.passage c.post).deeds (s.bearings c acts') =
      (s.world.passage c.post).deeds (s.bearings c acts))
    (hpost : ((s.world.passage c.post).steps (s.bearings c acts')).post =
      ((s.world.passage c.post).steps (s.bearings c acts)).post) : s.CarriesAlike c acts acts' := by
  obtain ⟨hafter, heq⟩ := h.passes_after (passes_of_mem hc) acts
  obtain ⟨hafter', heq'⟩ := h.passes_after (passes_of_mem hc) acts'
  refine ⟨by rw [heq, heq', hdeeds], ?_⟩
  rw [(h.after acts).courier?_of_passes hafter, (h.after acts').courier?_of_passes hafter', hpost]

/-- The same bears on the POST, and it takes the same way. -/
theorem Sound.carriesAlike (h : s.Sound) (hc : c ∈ s.world.couriers) {acts acts' : List Act}
    (hsame : s.bearings c acts' = s.bearings c acts) : s.CarriesAlike c acts acts' := by
  apply h.carriesAlike_of hc
  · rw [hsame]
  · rw [hsame]

theorem Sound.carriesOn (h : s.Sound) (hc : c ∈ s.world.couriers) (acts : List Act) :
    s.CarriesOn c acts := by
  obtain ⟨hafter, hdeeds⟩ := h.passes_after (passes_of_mem hc) acts
  have honward := (s.world.passage c.post).onward_steps (s.bearings c acts)
  refine ⟨⟨_, hafter.there, honward⟩, fun d hd hw => ?_, ?_, ?_, fun d hd => ?_⟩
  · rw [(h.after acts).courier_unique hd hafter.there hw]
  · rw [hdeeds]
    exact Passage.countP_hands _ _
  · rw [hdeeds]
    exact Passage.countP_ends _ _
  · rw [hdeeds] at hd
    exact Passage.mem_deeds _ hd

end Scene

/-- What in an act bears on the POST with a number, whatever the others do. -/
def Act.bearing? (id : WorkId) : Act → Option Bearing
  | .ring time => some (.ring time)
  | .move (.post i) => if i = id then some .carry else none
  | _ => none

namespace Scene

variable {s : Scene} {c : Courier}

private theorem filter_bearings (acts : List Act) :
    (s.bearings c acts).filter (· ≠ .rival) = acts.filterMap (Act.bearing? c.id) := by
  induction acts generalizing s with
  | nil => rfl
  | cons a acts ih =>
    have hrivals : (s.rivals c.post.peer a).filter (· ≠ .rival) = [] := by
      unfold rivals
      split <;> rfl
    have hone : (s.bearing c a).filter (· ≠ .rival) = (a.bearing? c.id).toList := by
      unfold bearing Act.bearing?
      cases a with
      | ring time => rfl
      | move r =>
        cases r with
        | post i =>
          by_cases hi : i = c.id
          · simp [hi]
          · simpa [hi] using hrivals
        | task i => exact hrivals
        | agent i => exact hrivals
      | _ => exact hrivals
    rw [bearings, List.filter_append, hone, ih, List.filterMap_cons]
    cases a.bearing? c.id <;> rfl

/-- If its peer reacts to a body alone, the POST takes the same way if it is moved at the same
times, whatever else is different. -/
theorem Sound.carriesAlike_of_reacts (h : s.Sound) (hc : c ∈ s.world.couriers)
    {react : Bytes → Reply} {outlet : Outlet} (hr : s.world.Reacts c.post.peer react outlet)
    {acts acts' : List Act}
    (hsame : acts'.filterMap (Act.bearing? c.id) = acts.filterMap (Act.bearing? c.id)) :
    s.CarriesAlike c acts acts' := by
  obtain ⟨peer, hpeer, -, hreact⟩ := hr
  have hlike : (s.world.passage c.post).Like (s.world.passage c.post) :=
    ⟨rfl, rfl, peer, peer, hpeer, hpeer, rfl, fun n n' body => by rw [hreact, hreact]⟩
  obtain ⟨hdeeds, hpost⟩ := hlike.without_rivals (s.bearings c acts)
  obtain ⟨hdeeds', hpost'⟩ := hlike.without_rivals (s.bearings c acts')
  rw [filter_bearings] at hdeeds hdeeds' hpost hpost'
  apply h.carriesAlike_of hc
  · rw [← hdeeds', hsame, hdeeds]
  · rw [← hpost', hsame, hpost]

end Scene

end Roaming.Simulation
