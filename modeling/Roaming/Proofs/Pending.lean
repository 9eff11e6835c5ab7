import Roaming.Proofs.Classification
import Roaming.Proofs.Refusals
import Roaming.Proofs.Retention

/-!
# Attempts that may be pending

Where peers and media fail as transports do, a failure after which an answer may still come tells of
one POST: a task that runs out of time or is cancelled has handed out its POST and has seen no
answer (`Scene.GivesUp`). A task whose listener was not registered has handed out none.
-/

set_option autoImplicit false
set_option relaxedAutoImplicit false

namespace Roaming

/-- No answer can come after a failure of the transport. -/
theorem Failure.mayBePending_of_transport {f : Failure} (h : ∃ message, f = .transport message) :
    f.mayBePending = false := by
  obtain ⟨message, rfl⟩ := h
  rfl

namespace Simulation

open Roaming.Text (Bytes)

/-- Nor after bytes that have come. -/
theorem Job.mayBePending_of_bytes {job : Job} {bytes : Bytes} {f : Failure}
    (h : job.outcome (.ok bytes) = .failed f) : f.mayBePending = false := by
  cases job with
  | request actor op r =>
    have hjudged := judged_outcome actor r bytes
    rw [h] at hjudged
    cases hjudged <;> rfl
  | exchange caller key body => cases h
  | push actor op answer => cases h
  | refused refusal => cases h

/-- Whether an exchange has its listener refused, if it has, by the transport. -/
def Errand.IsPlain (e : Errand) : Prop :=
  ∀ route name script f, e.caller.answers = some route → route.medium = .puppet name script →
    script.failure = some f → ∃ message, f = .transport message

namespace Scene

variable {s : Scene}

/-- Whether a task, as it stands, has its POST out by a courier, and no other, and sees no answer;
in sync mode, that the POST has not ended. -/
structure GivesUp (s : Scene) (u : Task) (e : Errand) (c : Courier) : Prop where
  courier : c ∈ s.world.couriers
  serves : c.Serves u.id e
  async : ∀ route, e.caller.answers = some route → ∃ v, u.stage = .watching v ∧ v.courier = c.id ∧
    s.world.sight v.subscription = .empty
  sync : e.caller.answers = none → u.stage = .awaiting c.id ∧ c.post.ending? = none

/-- A look that finds a payload or the inbox closed does not give up. -/
private theorem Sound.gives_up_of_verdict (h : s.Sound) {u : Task} (hu : u ∈ s.world.tasks)
    {v : Vigil} (hst : u.stage = .watching v) {e : Errand} (he : u.job.errand? = some e)
    {f : Failure} (hverdict : s.world.verdict u v = some (.error f)) (hf : f.mayBePending = true) :
    ∃ c, s.GivesUp u e c := by
  have hplace := h.tidy.inPlace u hu
  rw [Task.InPlace, hst] at hplace
  obtain ⟨-, e', route, he', hfor, c, hc, hid, hserves, -⟩ := hplace
  obtain rfl := Option.some.inj (he.symm.trans he')
  have hsight : s.world.sight v.subscription = .empty := by
    unfold World.verdict Watch.verdict at hverdict
    split at hverdict
    · cases hverdict
    · cases hverdict
      cases hf
    · next hempty => exact hempty
  have hawaits := hfor.answers
  refine ⟨c, hc, hserves, fun route' hroute' => ⟨v, hst, hid.symm, hsight⟩, fun hnone => ?_⟩
  rw [hnone] at hawaits
  cases hawaits

/-- In sync mode, a look that finds the end of the POST does not give up either. -/
private theorem Sound.gives_up_of_reply (h : s.Sound) {u : Task} (hu : u ∈ s.world.tasks)
    {courier : WorkId} (hst : u.stage = .awaiting courier) {e : Errand}
    (he : u.job.errand? = some e) (hposts : s.world.PostsPlainly e.caller.peer) {f : Failure}
    (hreply : s.world.replied u e.key courier = some (.error f)) (hf : f.mayBePending = true) :
    ∃ c, s.GivesUp u e c := by
  have hplace := h.tidy.inPlace u hu
  rw [Task.InPlace, hst] at hplace
  obtain ⟨e', he', hroute, c, hc, rfl, hserves⟩ := hplace
  obtain rfl := Option.some.inj (he.symm.trans he')
  have hplain := hposts.couriers c hc hserves.peer
  refine ⟨c, hc, hserves, fun route hroute' => ?_, fun _ => ⟨hst, ?_⟩⟩
  · rw [hroute] at hroute'
    cases hroute'
  · cases hend : c.post.ending? with
    | none => rfl
    | some ending =>
      have hended : ending.IsPlain := by
        unfold Post.ending? at hend
        unfold Post.IsPlain at hplain
        split at hend
        · next e' hstage =>
          rw [hstage] at hplain
          exact Option.some.inj hend ▸ hplain
        · cases hend
      have hsent : s.world.ending? c.id = some ending := (h.tidy.ending?_eq hc).trans hend
      unfold World.replied Reply.poll at hreply
      rw [hsent] at hreply
      cases ho : ending.outcome with
      | ok r => simp only [ho] at hreply; cases hreply
      | error f' =>
        simp only [ho, Option.some.injEq, Except.error.injEq] at hreply
        subst hreply
        rw [Failure.mayBePending_of_transport (hended f' ho)] at hf
        cases hf

/-- A task that leaves with a failure after which an answer may come, gives up. -/
private theorem Sound.gives_up_of_leaves (h : s.Sound) {u : Task} (hu : u ∈ s.world.tasks)
    {e : Errand} (he : u.job.errand? = some e) (hplain : e.IsPlain)
    (hposts : s.world.PostsPlainly e.caller.peer)
    (hseek : s.world.Seeking) {pubs : List Publication} {f : Failure}
    (hl : Leaves (s.stage (.move (.task u.id))) u pubs (some (.failed f)))
    (hf : f.mayBePending = true) : ∃ c, s.GivesUp u e c := by
  obtain ⟨rs, hrs, -⟩ := stage_eq s (.move (.task u.id))
  have hrefused : ∀ {f' : Failure}, (∃ message, f' = .transport message) →
      u.job.outcome (.error f') = .failed f → False := by
    intro f' htransport ho
    obtain rfl := Outcome.failed.inj ho
    rw [Failure.mayBePending_of_transport htransport] at hf
    cases hf
  generalize ho : Outcome.failed f = o at hl
  cases hl with
  | refused refusal hst hjob => cases ho
  | pushed actor op answer p ending hjob hp hend => simp [hjob, Job.errand?] at he
  | unarmed e' route name script f' hst he' hroute hmedium hf' =>
    obtain rfl := Option.some.inj (he.symm.trans he')
    exact (hrefused (hplain route name script f' hroute hmedium hf') ho.symm).elim
  | unconfirmed e' route i call listener f' hst he' ho' =>
    rw [hrs] at ho'
    obtain ⟨st, hs, hcall⟩ := hseek.called u hu route i call listener hst
    have hfailed : (s.world.stations[i]?).bind (·.link.outcome? call) = some (.error f') := ho'
    rw [hs, Option.bind_some] at hfailed
    exact (hrefused (hcall.of_outcome hfailed) ho.symm).elim
  | decided v r hst hpoll =>
    rw [view_stage] at hpoll
    obtain ⟨-, e', route, -, -, c, -, -, -, htracks⟩ := h.tidy.watching hu hst
    have hverdict : s.world.verdict u v = some r :=
      (Watch.poll_spec (v := s.world.view u v) htracks).1.symm.trans hpoll
    cases r with
    | ok bytes =>
      rw [Job.mayBePending_of_bytes ho.symm] at hf
      cases hf
    | error f' =>
      obtain rfl := Outcome.failed.inj ho
      exact h.gives_up_of_verdict hu hst he hverdict hf
  | answered e' courier r hst he' hr =>
    obtain rfl := Option.some.inj (he.symm.trans he')
    rw [hrs] at hr
    cases r with
    | ok bytes =>
      rw [Job.mayBePending_of_bytes ho.symm] at hf
      cases hf
    | error f' =>
      obtain rfl := Outcome.failed.inj ho
      exact h.gives_up_of_reply hu hst he hposts hr hf

/-! ### The course of an exchange -/

/-- Whether what an exchange relies on fails, where it fails, by the transport: its peer, the medium
that refuses its listener, and the links, whose calls are told apart. -/
structure FailsPlainly (s : Scene) (e : Errand) : Prop where
  peer : ∀ peer : Peer, s.world.peers[e.caller.peer]? = some peer → peer.IsPlain
  medium : e.IsPlain
  links : ∀ (i : Nat) (st : Station), s.world.stations[i]? = some st → st.link.Orderly

/-- What the failure of an exchange tells of its POST in the course of acts. -/
structure TellsOfPost (s : Scene) (t : Task) (e : Errand) (acts : List Act) (f : Failure) :
    Prop where
  /-- If an answer may still come, the POST was out when the task gave up, and no payload had come
  for it until then. It is the only one, whatever happens later. -/
  pending : f.mayBePending = true → (f = .asyncTimeout ∨ f = .cancelled) ∧
    ∃ earlier later u c, acts = earlier ++ .move (.task t.id) :: later ∧
      u ∈ (s.after earlier).world.tasks ∧ u.id = t.id ∧ (s.after earlier).GivesUp u e c ∧
      (∀ earlier' later', earlier = earlier' ++ later' → ∀ x ∈ (s.after earlier').world.tasks,
        x.id = t.id → ∀ sub, x.subscription? = some sub →
        ∀ p, (s.after earlier').world.sight sub ≠ .message p) ∧
      ∀ more, ∃ d ∈ (s.after (acts ++ more)).world.couriers, d.id = c.id ∧ d.Serves t.id e ∧
        ∀ x ∈ (s.after (acts ++ more)).world.couriers, x.waiter = t.id → x = d
  /-- If its listener never came to be registered, no answer can come, and there never is a POST. -/
  unarmed : e.caller.answers ≠ none →
    (∀ earlier later, acts = earlier ++ later → ∀ u ∈ (s.after earlier).world.tasks, u.id = t.id →
      ∀ route sub, u.stage ≠ .armed route sub) →
    f.mayBePending = false ∧ ∀ more, (s.after (acts ++ more)).world.NoCourier t.id

/-- What was seen before is still there when the task gives up. -/
private theorem Sound.unseen_of_gives_up (h : s.Sound) {e : Errand} {c : Courier} {u : Task}
    {earlier later : List Act} (hu : u ∈ (s.after (earlier ++ later)).world.tasks)
    (hgives : (s.after (earlier ++ later)).GivesUp u e c) {x : Task}
    (hx : x ∈ (s.after earlier).world.tasks) (hid : x.id = u.id) {sub : Subscription}
    (hsub : x.subscription? = some sub) (p : Bytes) :
    (s.after earlier).world.sight sub ≠ .message p := by
  intro hsight
  rw [after_append] at hu hgives
  obtain ⟨husub, hlater⟩ := (h.after earlier).message_after hx hsub hsight hu hid.symm
  cases hanswers : e.caller.answers with
  | none =>
    have hst := (hgives.sync hanswers).1
    rw [Task.subscription?, hst] at husub
    cases husub
  | some route =>
    obtain ⟨v, hst, -, hempty⟩ := hgives.async route hanswers
    rw [Task.subscription?, hst] at husub
    cases husub
    rw [hempty] at hlater
    cases hlater

/-- The POST of a task that gives up stays the only one. -/
private theorem Sound.sole_post (h : s.Sound) {e : Errand} {c : Courier} {u : Task}
    (hgives : s.GivesUp u e c) (acts : List Act) :
    ∃ d ∈ (s.after acts).world.couriers, d.id = c.id ∧ d.Serves u.id e ∧
      ∀ x ∈ (s.after acts).world.couriers, x.waiter = u.id → x = d := by
  obtain ⟨d, hd, hid, hlater⟩ := h.courier_after hgives.courier acts
  have hserves := hlater u.id e hgives.serves
  refine ⟨d, hd, hid, hserves, fun x hx hw => ?_⟩
  exact (h.after acts).courier_unique hx hd (hw.trans hserves.waiter.symm)

/-- A task that has gone without a listener hands out no POST any more. -/
private theorem Sound.noCourier_of_unarmed (h : s.Sound) {t : Task} (ht : t ∈ s.world.tasks)
    (hst : t.stage = .fresh) {e : Errand} (he : t.job.errand? = some e)
    (hanswers : e.caller.answers ≠ none) {acts : List Act}
    (hgone : ∀ u ∈ (s.after acts).world.tasks, u.id ≠ t.id)
    (hunarmed : ∀ earlier later, acts = earlier ++ later → ∀ u ∈ (s.after earlier).world.tasks,
      u.id = t.id → ∀ route sub, u.stage ≠ .armed route sub) (more : List Act) :
    (s.after (acts ++ more)).world.NoCourier t.id := by
  intro c hc hw
  obtain ⟨route, hroute⟩ := Option.ne_none_iff_exists'.mp hanswers
  obtain ⟨-, earlier, later, u, sub, hsplit, hu, hid, harmed, -⟩ :=
    (h.postsOnce ht hst he hroute (acts ++ more)).afterArmed c hc hw
  rcases List.append_eq_append_iff.mp hsplit with ⟨between, hearlier, -⟩ | ⟨between, hacts, -⟩
  · rw [hearlier, after_append] at hu
    have hlt : t.id < (s.after acts).world.nextId := by
      have hkept : ∀ acts, (s.after acts).Sound ∧ t.id < (s.after acts).world.nextId := by
        refine after_induction (P := fun s => s.Sound ∧ t.id < s.world.nextId)
          ⟨h, h.seated.ids_lt t ht⟩ ?_
        rintro s' a ⟨h', hlt⟩
        exact ⟨h'.act a, Nat.lt_of_lt_of_le hlt (h'.nextId_act a)⟩
      exact (hkept acts).2
    exact ((h.after acts).gone_after hlt hgone between).1 u hu hid
  · exact hunarmed earlier between hacts u hu hid route sub harmed

/-- In every run, mode and policy, the failure of an exchange tells the truth about its POST, where
peers, media and links fail by the transport. -/
theorem failures_tell_of_the_post (hs : s.IsOpening) {e : Errand} (hplain : s.FailsPlainly e)
    (before : List Act) {t : Task} (ht : t ∈ (s.after before).world.tasks) (hst : t.stage = .fresh)
    (he : t.job.errand? = some e) (acts : List Act) {f : Failure}
    (ho : ((s.after before).after acts).world.outcomes t.id = [.failed f]) :
    (s.after before).TellsOfPost t e acts f := by
  have hrun : ∀ acts, (s.after acts).Sound ∧ (s.after acts).world.PostsPlainly e.caller.peer ∧
      (s.after acts).world.Seeking := by
    refine after_induction (P := fun s => s.Sound ∧ s.world.PostsPlainly e.caller.peer ∧
      s.world.Seeking) ⟨hs.sound_after [], ⟨hplain.peer, ?_⟩, ⟨hplain.links, ?_⟩⟩ ?_
    · rw [hs.couriers]
      exact fun c hc => by cases hc
    · rw [hs.tasks]
      exact fun t ht => by cases ht
    · rintro s' a ⟨h, hposts, hseek⟩
      exact ⟨h.act a, h.postsPlainly_act hposts a, h.seeking_act hseek a⟩
  have hsound := (hrun before).1
  have hgone : ∀ u ∈ ((s.after before).after acts).world.tasks, u.id ≠ t.id := by
    rintro u hu hid
    have hnone := (hsound.after acts).outcomes_of_mem hu
    rw [hid, ho] at hnone
    cases hnone
  have hpending : f.mayBePending = true → ∃ earlier later u c,
      acts = earlier ++ .move (.task t.id) :: later ∧
        u ∈ ((s.after before).after earlier).world.tasks ∧ u.id = t.id ∧
        ((s.after before).after earlier).GivesUp u e c := by
    intro hf
    obtain ⟨earlier, later, u, pubs, hsplit, hu, hid, hjob, hl⟩ := hsound.left_at ht ho
    obtain ⟨hsound', hposts, hseek⟩ := hrun (before ++ earlier)
    rw [after_append] at hsound' hposts hseek
    rw [← hid] at hl
    obtain ⟨c, hgives⟩ :=
      hsound'.gives_up_of_leaves hu (by rw [hjob]; exact he) hplain.medium hposts hseek hl hf
    exact ⟨earlier, later, u, c, hsplit, hu, hid, hgives⟩
  have hsole : ∀ {earlier later u c}, acts = earlier ++ .move (.task t.id) :: later → u.id = t.id →
      ((s.after before).after earlier).GivesUp u e c → ∀ more,
      ∃ d ∈ ((s.after before).after (acts ++ more)).world.couriers, d.id = c.id ∧ d.Serves t.id e ∧
        ∀ x ∈ ((s.after before).after (acts ++ more)).world.couriers, x.waiter = t.id → x = d := by
    intro earlier later u c hsplit hid hgives more
    have hpost := (hsound.after earlier).sole_post hgives (.move (.task t.id) :: later ++ more)
    rwa [← after_append, ← List.append_assoc, ← hsplit, hid] at hpost
  constructor
  · intro hf
    refine ⟨by cases f <;> simp_all [Failure.mayBePending], ?_⟩
    obtain ⟨earlier, later, u, c, hsplit, hu, hid, hgives⟩ := hpending hf
    refine ⟨earlier, later, u, c, hsplit, hu, hid, hgives, ?_, hsole hsplit hid hgives⟩
    rintro earlier' later' rfl x hx hxid sub hsub p
    exact hsound.unseen_of_gives_up hu hgives hx (hxid.trans hid.symm) hsub p
  · intro hanswers hunarmed
    have hnone := hsound.noCourier_of_unarmed ht hst he hanswers hgone hunarmed
    refine ⟨Bool.eq_false_iff.mpr fun hf => ?_, hnone⟩
    obtain ⟨earlier, later, u, c, hsplit, hu, hid, hgives⟩ := hpending hf
    obtain ⟨d, hd, -, hserves, -⟩ := hsole hsplit hid hgives []
    exact hnone [] d hd hserves.waiter

/-- The exchange of `firstJob`. -/
def firstErrand : Errand := ⟨⟨0, some ⟨.hub "x0", .ofMillis 1000, .failFast⟩⟩, "k", [1]⟩

/-- An exchange that is cancelled before its POST has been moved at all. -/
theorem cancelled_exchange_tells_of_its_post :
    let started := (opening [silentPeer]).after [.start "t0" firstJob .armed]
    let acts := [.cancel 0, .move (.task 0), .move (.task 0), .move (.task 0)]
    (opening [silentPeer]).FailsPlainly firstErrand ∧
      (started.after acts).world.outcomes 0 = [.failed .cancelled] ∧
      started.TellsOfPost { id := 0, name := "t0", job := firstJob, cancellation := .armed }
        firstErrand acts .cancelled := by
  have hplain : (opening [silentPeer]).FailsPlainly firstErrand := by
    refine ⟨fun peer hpeer n body f hf => ?_, fun route name script f hroute hmedium => ?_,
      fun i st hst => ?_⟩
    · cases hpeer
      cases hf
    · cases hroute
      cases hmedium
    · cases hst
  have hopening := opening_isOpening [silentPeer]
  have hsound := hopening.sound_after [.start "t0" firstJob .armed, .cancel 0, .move (.task 0),
    .move (.task 0)]
  have hlook := (hsound.endsByVerdict (List.mem_singleton_self _) rfl).ends rfl
    (.error .cancelled) rfl
  exact ⟨hplain, hlook.1, failures_tell_of_the_post hopening hplain [.start "t0" firstJob .armed]
    (List.mem_singleton_self _) rfl rfl
    [.cancel 0, .move (.task 0), .move (.task 0), .move (.task 0)] hlook.1⟩

end Scene

end Simulation

end Roaming
