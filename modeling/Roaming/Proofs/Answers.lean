import Roaming.Proofs.Delivery
import Roaming.Proofs.Keys
import Roaming.Proofs.RoundTrip

/-!
# Answers reach their requests

A client publishes an answer on the key of its transaction. Where two clients share a key space, the
request of this transaction listens on that key, takes the answer and ends with what it says; an
answer of another transaction, operation or key space goes past it.
-/

set_option autoImplicit false
set_option relaxedAutoImplicit false

namespace Roaming

open Roaming.Text (Bytes)

/-- Whether a client awaits and publishes its answers over a medium. -/
structure Client.IsOver {P M : Type} (c : Client P M) (medium : M) : Prop where
  answers : ∃ route, c.correlator.answers = some route ∧ route.medium = medium
  publisher : c.publisher = some ⟨medium, c.settings.keys⟩

/-- What a client that is built is made of. -/
theorem Client.parts_of_build {P M : Type} {files : Files} {s : Settings}
    {ofEndpoint : Endpoint → P} {peer : Option P} {medium : Option M} {c : Client P M}
    (h : (Client.build files s ofEndpoint peer medium).1 = .ok c) : ∃ p log answers,
      choosePeer files s ofEndpoint peer = .ok (p, log) ∧ chooseAnswers s medium = .ok answers ∧
      c = ⟨s, ⟨p, answers⟩, answers.map fun route => ⟨route.medium, s.keys⟩⟩ := by
  rw [Client.build] at h
  split at h
  · cases h
  · split at h
    · cases h
    · cases hpeer : choosePeer files s ofEndpoint peer with
      | error f =>
        rw [hpeer] at h
        cases h
      | ok chosen =>
        rw [hpeer] at h
        cases hanswers : chooseAnswers s medium with
        | error f =>
          simp only [hanswers] at h
          cases h
        | ok answers =>
          simp only [hanswers] at h
          obtain rfl := Except.ok.inj h
          exact ⟨chosen.1, chosen.2, answers, rfl, rfl, rfl⟩

/-- A client that is built on a medium answers over it. -/
theorem Client.isOver_of_build {P M : Type} {files : Files} {s : Settings}
    {ofEndpoint : Endpoint → P} {peer : Option P} {medium : M} {c : Client P M}
    (h : (Client.build files s ofEndpoint peer (some medium)).1 = .ok c) :
    c.settings = s ∧ c.IsOver medium := by
  obtain ⟨p, log, answers, -, hanswers, rfl⟩ := parts_of_build h
  refine ⟨rfl, ?_⟩
  simp only [chooseAnswers] at hanswers
  split at hanswers
  · split at hanswers
    · cases hanswers
    · cases hanswers
      exact ⟨⟨_, rfl, rfl⟩, rfl⟩
  · cases hanswers

theorem KeySpace.eq_of_parts {s s' : KeySpace} (hspace : s.space = s'.space)
    (hcomponent : s.component = s'.component) : s = s' := by
  cases s
  cases s'
  cases hspace
  cases hcomponent
  rfl

/-- Whether an answer that arrives for a request is its own: of its transaction, and of no other
type. -/
structure Answer.IsFor {op : Operation} (a : Answer op) (id : TransactionId) : Prop where
  transaction : a.base.transactionID = id
  type : a.base.messageType = none ∨ a.base.messageType = some op.answerTag

/-- How a request ends that gets this answer. -/
def Answer.ending {op : Operation} (a : Answer op) : Simulation.Outcome :=
  if a.result.code.isSuccess then .accepted op a
  else .failed (.application a.result.code a.result.description)

/-- A request takes its answer from the bytes as it was published. -/
theorem Answer.outcome_encode {op : Operation} {a : Answer op} (h : a.Survives)
    {requester : Simulation.Actor} {r : Request op} (ha : a.IsFor r.base.transactionID) :
    (Simulation.Job.request requester op r).outcome (.ok a.encode) = a.ending := by
  have htag : a.base.messageType.filter (· ≠ op.answerTag) = none := by
    rcases ha.type with hnone | hsome
    · rw [hnone]
      rfl
    · rw [hsome]
      simp
  have hid : ¬ a.base.transactionID ≠ r.base.transactionID := not_not.mpr ha.transaction
  simp only [Simulation.Job.outcome, Answer.accept, Answer.decode_encode h, if_neg hid, htag,
    Answer.ending]
  cases a.result.code.isSuccess <;> rfl

end Roaming

namespace Roaming.Simulation

open Roaming.Text (Bytes)

namespace Scene

variable {s : Scene}

/-! ### Publishing an answer -/

/-- A scene after a client has published an answer. -/
def afterAnswer {op : Operation} (responder : Actor) (a : Answer op) (s : Scene) : Scene :=
  { s with world := (s.world.answer responder a).2 }

/-- What is recorded and reported has no part in what happens. -/
theorem Sound.reported (h : s.Sound) (events : List Event) (log : Log) :
    Sound { s with world := { s.world with events, log } } where
  seated := ⟨h.seated.ids, h.seated.ids_lt, h.seated.hub, h.seated.seats, h.seated.unique,
    h.seated.owned⟩
  tidy := ⟨h.tidy.ids, h.tidy.waiters, h.tidy.lt, h.tidy.inPlace⟩
  alert := by
    refine ⟨fun t ht v hst hbusy hverdict => ?_, h.alert.timed, h.alert.dropped, h.alert.called,
      h.alert.begun⟩
    refine h.alert.decided t ht v hst hbusy fun hnone => hverdict ?_
    have hsight : World.sight v.subscription { s.world with events, log } =
        s.world.sight v.subscription := by
      cases v.subscription <;> rfl
    rw [← hnone]
    exact congrArg v.watch.verdict (World.view_eq hsight rfl Iff.rfl)
  settled := h.settled

/-- Publishing an answer over the hub succeeds, and offers it to those who listen on its key. -/
theorem Sound.afterAnswer_spec (h : s.Sound) {op : Operation} {responder : Actor} {name : String}
    (hover : responder.IsOver (.hub name)) (a : Answer op) :
    (s.world.answer responder a).1 = .done ∧ (s.afterAnswer responder a).Sound ∧
      (s.afterAnswer responder a).world.tasks = s.world.tasks ∧
      (s.afterAnswer responder a).world.hub = s.world.hub.offer
        (responder.settings.keys.key op.requestTag a.base.transactionID) a.encode := by
  let p : Publisher Medium := ⟨.hub name, responder.settings.keys⟩
  have hpublisher : responder.publisherOrFail = .ok p := by
    rw [Client.publisherOrFail, hover.publisher]
  let recorded : Scene := { s with
    world := s.world.record (.publish name (p.publication a).key a.encode) }
  have hpublished := (h.reported recorded.world.events s.world.log).act
    (.publish (p.publication a).key a.encode)
  have halike := recorded.world.alike_publishOnHub (p.publication a).key a.encode
  have hdone : (s.world.answer responder a).1 = .done := by
    simp only [World.answer, hpublisher]
    rfl
  have hscene : ∃ log, s.afterAnswer responder a = { s with
      world := World.report log (recorded.world.publishOnHub (p.publication a).key a.encode) } := by
    simp only [afterAnswer, World.answer, hpublisher]
    exact ⟨_, rfl⟩
  obtain ⟨log, hscene⟩ := hscene
  rw [hscene]
  exact ⟨hdone, hpublished.reported _ _, halike.tasks, halike.hub⟩

/-! ### The end of a request whose answer is there -/

/-- Whether a task ends with an outcome unless it is dropped: it has, or it goes on by itself, and
two pieces of its turn are enough. -/
def EndsWith (s : Scene) (t : Task) (o : Outcome) : Prop :=
  ∀ acts, .drop t.id ∉ acts →
    (s.after acts).world.outcomes t.id = [o] ∨
      (s.after acts).world.outcomes t.id = [] ∧ ¬ (s.after acts).IsQuiet ∧
        (s.after (acts ++ [.move (.task t.id), .move (.task t.id)])).world.outcomes t.id = [o]

/-- Whether nobody has dropped a task. -/
def Undropped (s : Scene) (id : WorkId) : Prop :=
  ∀ u ∈ s.world.tasks, u.id = id → u.isDropped = false

private theorem Sound.undropped_act (h : s.Sound) {t : Task} (ht : t ∈ s.world.tasks)
    (hd : s.Undropped t.id) {a : Act} (ha : a ≠ .drop t.id) : (s.act a).Undropped t.id := by
  intro u hu hid
  cases h.leaving ht a with
  | leaves pubs o ha' hd' hl hgone ho => exact absurd hid (hgone u hu)
  | cleared ha' hd' hgone ho => exact absurd hid (hgone u hu)
  | stays x W hfate hW hx ho =>
    have hux := (h.act a).seated.task_unique hu hx (hid.trans hfate.id_eq.symm)
    subst hux
    have hnot := hd t ht rfl
    cases hfate with
    | kept hne => exact hnot
    | cancelled ha' => exact hnot
    | dropped ha' => exact absurd ha' ha
    | still ha' hd' hidle hW => exact hnot
    | moved ha' hd' stage isBusy gain hm hW => exact hnot

theorem Sound.undropped_after (h : s.Sound) {id : WorkId} (hid : id < s.world.nextId)
    (hd : s.Undropped id) (acts : List Act) (hacts : .drop id ∉ acts) :
    (s.after acts).Undropped id := by
  induction acts generalizing s with
  | nil => exact hd
  | cons a acts ih =>
    have ha : a ≠ .drop id := fun ha => hacts (ha ▸ List.mem_cons_self)
    refine ih (h.act a) (Nat.lt_of_lt_of_le hid (h.nextId_act a)) ?_
      fun hmem => hacts (List.mem_cons_of_mem _ hmem)
    by_cases hthere : ∃ t ∈ s.world.tasks, t.id = id
    · obtain ⟨t, ht, rfl⟩ := hthere
      exact h.undropped_act ht hd ha
    · push Not at hthere
      exact fun u hu huid => absurd huid ((h.gone_act hid hthere a).2.1 u hu)

/-- A task that has a payload in its inbox keeps it or ends with it, if it was not dropped. -/
private theorem Sound.keeps_or_ends (h : s.Sound) {t : Task} {p : Bytes} (hk : s.Keeps t p)
    (hd : s.Undropped t.id) (a : Act) :
    (s.act a).Keeps t p ∨ (∀ u ∈ (s.act a).world.tasks, u.id ≠ t.id) ∧
      (s.act a).world.outcomes t.id = [t.job.outcome (.ok p)] := by
  cases h.keeps_act hk a with
  | kept hk' => exact .inl hk'
  | delivered hgone ho => exact .inr ⟨hgone, ho⟩
  | dropped hgone ho =>
    obtain ⟨u, hu, hid, -, key, l, hsub, -⟩ := hk
    rw [← hid] at hgone ho
    cases h.leaving hu a with
    | stays x W hfate hW hx ho' => exact absurd hfate.id_eq (hgone x hx)
    | leaves pubs o ha hd' hl hgone' ho' =>
      obtain ⟨x, rfl⟩ := hl.outcome hsub
      rw [ho] at ho'
      cases ho'
    | cleared ha hd' hgone' ho' =>
      rw [hd u hu hid] at hd'
      cases hd'

/-- It looks at once or after it has handed out its POST. -/
private theorem Sound.ends_in_two (h : s.Sound) {t : Task} {p : Bytes} (hk : s.Keeps t p)
    (hd : s.Undropped t.id) :
    (s.after [.move (.task t.id), .move (.task t.id)]).world.outcomes t.id =
      [t.job.outcome (.ok p)] := by
  obtain ⟨u, hu, hid, -, key, l, hsub, -⟩ := id hk
  have hlt : t.id < s.world.nextId := hid ▸ h.seated.ids_lt u hu
  have hlook : ∀ {s : Scene}, s.Sound → s.Keeps t p → s.Undropped t.id →
      ∀ u ∈ s.world.tasks, u.id = t.id → ∀ v, u.stage = .watching v →
      (s.act (.move (.task t.id))).world.outcomes t.id = [t.job.outcome (.ok p)] := by
    intro s h hk hd u hu hid v hst
    exact h.keeps_look hk hu hid hst (by rw [hd u hu hid]; rfl)
  rcases Task.stage_of_hub hsub with ⟨route, hst⟩ | ⟨v, hst, -⟩
  · have hplace := h.tidy.inPlace u hu
    rw [Task.InPlace, hst] at hplace
    obtain ⟨-, -, e, he, -⟩ := hplace
    obtain ⟨x, hx, hxid, v, hxst⟩ : ∃ x ∈ (s.act (.move (.task t.id))).world.tasks,
        x.id = t.id ∧ ∃ v, x.stage = .watching v := by
      rw [← hid]
      exact ⟨_, (h.launches hu hst he).1, rfl, _, rfl⟩
    have hkept : (s.act (.move (.task t.id))).Keeps t p := by
      rcases h.keeps_or_ends hk hd (.move (.task t.id)) with hkept | ⟨hgone, -⟩
      · exact hkept
      · exact absurd hxid (hgone x hx)
    have hd' := h.undropped_after hlt hd [.move (.task t.id)] (by simp)
    exact hlook (h.act _) hkept hd' x hx hxid v hxst
  · have hends := hlook h hk hd u hu hid v hst
    have hgone : ∀ x ∈ (s.act (.move (.task t.id))).world.tasks, x.id ≠ t.id := by
      intro x hx hxid
      have hnone := (h.act _).outcomes_of_mem hx
      rw [hxid, hends] at hnone
      cases hnone
    rw [after_cons, ← hends]
    exact ((h.act _).gone_after (Nat.lt_of_lt_of_le hlt (h.nextId_act _)) hgone _).2

theorem Sound.endsWith (h : s.Sound) {t : Task} {p : Bytes} (hk : s.Keeps t p)
    (hd : s.Undropped t.id) : s.EndsWith t (t.job.outcome (.ok p)) := by
  intro acts hacts
  induction acts generalizing s with
  | nil =>
    obtain ⟨u, hu, hid, -⟩ := id hk
    exact .inr ⟨hid ▸ h.outcomes_of_mem hu, h.keeps_not_quiet hk, h.ends_in_two hk hd⟩
  | cons a acts ih =>
    have ha : a ≠ .drop t.id := fun ha => hacts (ha ▸ List.mem_cons_self)
    obtain ⟨u, hu, hid, -⟩ := id hk
    have hlt : t.id < s.world.nextId := hid ▸ h.seated.ids_lt u hu
    rcases h.keeps_or_ends hk hd a with hkept | ⟨hgone, ho⟩
    · have hd' := h.undropped_after hlt hd [a] (by simpa using Ne.symm ha)
      exact ih (h.act a) hkept hd' fun hmem => hacts (List.mem_cons_of_mem _ hmem)
    · left
      rw [after_cons, ← ho]
      exact ((h.act a).gone_after (Nat.lt_of_lt_of_le hlt (h.nextId_act a)) hgone acts).2

/-! ### Over both clients -/

/-- A request that has just been registered listens on its key until an answer is published. -/
private theorem Sound.awaits (h : s.Sound) {t : Task} {e : Errand} {route : AnswerRoute Medium}
    {name : String} (ht : t ∈ s.world.tasks) (hst : t.stage = .fresh) (he : t.job.errand? = some e)
    (hroute : e.caller.answers = some route) (hmedium : route.medium = .hub name)
    (hd : t.isDropped = false) {acts : List Act} (hclose : .close ∉ acts)
    (hfirst : payloadsOn e.key ((s.act (.move (.task t.id))).published acts) = [])
    (hthere : ∃ u ∈ ((s.act (.move (.task t.id))).after acts).world.tasks, u.id = t.id) :
    ((s.act (.move (.task t.id))).after acts).Listens t e.key [] := by
  have hundropped : (t.isDropped && !t.isBusy) = false := by
    rw [hd]
    rfl
  obtain ⟨l, ht', hon, hinbox⟩ := h.begins_on_hub ht hst he hroute hmedium hundropped
  have hlistens : (s.act (.move (.task t.id))).Listens t e.key [] :=
    ⟨_, ht', rfl, l, rfl, hon, hinbox⟩
  have hlater := (h.act _).listens_after (h.lt_nextId ht _) hlistens hclose hthere
  rw [hfirst] at hlater
  exact hlater

/-- The first payload that is offered to a task is in its inbox. -/
private theorem Sound.keeps_of_offer (h : s.Sound) {t : Task} {key : Key} (hl : s.Listens t key [])
    (hjob : ∀ u ∈ s.world.tasks, u.id = t.id → u.job = t.job) {s' : Scene} {p : Bytes}
    (htasks : s'.world.tasks = s.world.tasks) (hhub : s'.world.hub = s.world.hub.offer key p) :
    s'.Keeps t p := by
  obtain ⟨u, hu, hid, l, hsub, hon, hinbox⟩ := hl
  refine ⟨u, htasks ▸ hu, hid, hjob u hu hid, key, l, hsub, Listeners.sight_eq_message.mpr ⟨[], ?_⟩⟩
  rw [hhub, Listeners.inbox_offer (h.seated.hub.holds_of_on key l hon), if_pos hon, hinbox]
  rfl

/-- What is published on other keys is not for a task. -/
private theorem Sound.inbox_of_other_key (h : s.Sound) {u : Task} (hu : u ∈ s.world.tasks)
    {key k : Key} {l : ListenerId} (hsub : u.subscription? = some (.hub key l)) (hk : k ≠ key)
    (p : Bytes) : (s.world.hub.offer k p).inbox l = s.world.hub.inbox l := by
  have hheld : s.Has (.task u.id) (.hub key l) := ⟨u, hu, rfl, hsub⟩
  obtain ⟨x, hx, hholds, -⟩ := h.seated.seats _ _ (none, l) hheld rfl
  cases hx
  rw [Listeners.inbox_offer hholds, if_neg fun hon => hk (h.seated.key_eq hheld hon)]

/-- A request over the hub whose answer is the first that a client of its key space publishes on its
key, ends with what this answer says. An answer of another transaction, operation or key space
leaves its inbox as it is. -/
theorem published_answer_reaches_its_request (hs : s.IsOpening) (before : List Act) {t : Task}
    {requester responder : Actor} {op : Operation} {r : Request op} {name name' : String}
    (hrequester : requester.IsOver (.hub name)) (hresponder : responder.IsOver (.hub name'))
    (ht : t ∈ (s.after before).world.tasks) (hst : t.stage = .fresh) (hd : t.isDropped = false)
    (hjob : t.job = .request requester op r) (acts : List Act) {armed now : Scene}
    (harmed : armed = (s.after before).act (.move (.task t.id))) (hnow : now = armed.after acts)
    (hthere : ∃ u ∈ now.world.tasks, u.id = t.id) :
    (∀ a : Answer op, responder.settings.keys = requester.settings.keys → a.Survives →
      a.IsFor r.base.transactionID → .close ∉ acts → .drop t.id ∉ acts →
      payloadsOn (requester.requestKey r) (armed.published acts) = [] →
      (now.world.answer responder a).1 = .done ∧
        (now.afterAnswer responder a).EndsWith t a.ending) ∧
    ∀ (op' : Operation) (b : Answer op'), b.base.transactionID ≠ r.base.transactionID ∨ op' ≠ op ∨
      responder.settings.keys ≠ requester.settings.keys →
      ∀ u ∈ now.world.tasks, u.id = t.id → ∀ key l, u.subscription? = some (.hub key l) →
        (now.afterAnswer responder b).world.hub.inbox l = now.world.hub.inbox l := by
  subst harmed hnow
  have hsound := hs.sound_after before
  have hlater := (hsound.act (.move (.task t.id))).after acts
  have he : t.job.errand? =
      some ⟨requester.correlator, requester.requestKey r, requester.requestBody r⟩ := by
    rw [hjob]
    rfl
  obtain ⟨route, hroute, hmedium⟩ := hrequester.answers
  have hsame := hsound.job_after ht (.move (.task t.id) :: acts)
  constructor
  · intro a hkeys hsurvives hfor hclose hdrop hfirst
    have hlistens := hsound.awaits ht hst he hroute hmedium hd hclose hfirst hthere
    obtain ⟨hdone, hsound', htasks, hhub⟩ := hlater.afterAnswer_spec hresponder a
    have hkey : responder.settings.keys.key op.requestTag a.base.transactionID =
        requester.requestKey r := by
      rw [hkeys, hfor.transaction]
      rfl
    rw [hkey] at hhub
    have hkeeps := hlater.keeps_of_offer hlistens hsame htasks hhub
    have hundropped : (s.after before).Undropped t.id := by
      intro u hu hid
      rw [hsound.seated.task_unique hu ht hid]
      exact hd
    have hnow := hsound.undropped_after (hsound.seated.ids_lt t ht) hundropped
      (.move (.task t.id) :: acts) (by simpa using hdrop)
    have hends := hsound'.endsWith hkeeps fun u hu => hnow u (htasks ▸ hu)
    rw [hjob, Answer.outcome_encode hsurvives hfor] at hends
    exact ⟨hdone, hends⟩
  · intro op' b hother u hu hid key l hsub
    have hue : u.job.errand? =
        some ⟨requester.correlator, requester.requestKey r, requester.requestBody r⟩ := by
      rw [hsame u hu hid]
      exact he
    have hkey : key = requester.requestKey r := hlater.key_of_listener hu hue hsub
    obtain ⟨-, -, -, hhub⟩ := hlater.afterAnswer_spec hresponder b
    rw [hhub]
    refine hlater.inbox_of_other_key hu hsub (fun hk => ?_) _
    obtain ⟨hspace, hcomponent, htag, htransaction⟩ := KeySpace.key_injective (hk.trans hkey)
    rcases hother with hne | hne | hne
    · exact hne htransaction
    · exact hne (congrArg Tag.operation htag)
    · exact hne (KeySpace.eq_of_parts hspace hcomponent)

/-- The settings of a client that awaits answers over a medium. -/
def roamingSettings : Settings where
  sender := "010203"
  receiver := "030201"
  timeout := some (.ofMillis 1000)

/-- The client that these settings give on the hub. -/
def roamingClient (name : String) : Actor where
  settings := roamingSettings
  correlator := ⟨0, some ⟨.hub name, .ofMillis 1000, .failFast⟩⟩
  publisher := some ⟨.hub name, .standard⟩

/-- The request of a home network, with the transaction id 7. -/
def homeRequest : Request .homeNS := ⟨{ transactionID := 7 }, (some "70B3D5", ())⟩

/-- An answer of this transaction, and one of the next. -/
def homeAnswer (id : TransactionId) : Answer .homeNS :=
  ⟨{ transactionID := id }, ⟨.success, "\""⟩, (some "é", ())⟩

/-- The answer comes while the POST is under way, and after one of another transaction. -/
theorem home_answer_reaches_its_request :
    let armed := ((opening [silentPeer]).act (.start "t0"
      (.request (roamingClient "c0") .homeNS homeRequest) .never)).act (.move (.task 0))
    let now := armed.after [.move (.task 0), .move (.post 1)]
    (now.world.answer (roamingClient "c1") (homeAnswer 7)).1 = .done ∧
      (now.afterAnswer (roamingClient "c1") (homeAnswer 7)).EndsWith
        { id := 0, name := "t0", job := .request (roamingClient "c0") .homeNS homeRequest }
        (.accepted .homeNS (homeAnswer 7)) ∧
      (now.afterAnswer (roamingClient "c1") (homeAnswer 8)).world.hub.inbox 0 = [] := by
  have hbuilt : ∀ name, (Client.build [] roamingSettings (fun _ => 0) (some 0)
      (some (.hub name))).1 = .ok (roamingClient name) := fun _ => rfl
  have hthere : ∃ u ∈ ((((opening [silentPeer]).act (.start "t0"
      (.request (roamingClient "c0") .homeNS homeRequest) .never)).act (.move (.task 0))).after
      [.move (.task 0), .move (.post 1)]).world.tasks, u.id = 0 :=
    ⟨_, List.mem_singleton_self _, rfl⟩
  have hboth := published_answer_reaches_its_request (opening_isOpening [silentPeer])
    [.start "t0" (.request (roamingClient "c0") .homeNS homeRequest) .never]
    (Client.isOver_of_build (hbuilt "c0")).2 (Client.isOver_of_build (hbuilt "c1")).2
    (List.mem_singleton_self _) rfl rfl rfl [.move (.task 0), .move (.post 1)]
    rfl rfl hthere
  have hsurvives : (homeAnswer 7).Survives := ⟨nofun, trivial, trivial⟩
  have hown := hboth.1 (homeAnswer 7) rfl hsurvives ⟨rfl, .inl rfl⟩ (by simp) (by simp) rfl
  exact ⟨hown.1, hown.2, hboth.2 _ (homeAnswer 8) (.inl (by decide)) _
    (List.mem_singleton_self _) rfl _ _ rfl⟩

end Scene

end Roaming.Simulation
