import Roaming.Proofs.Answers
import Roaming.Simulation.Run

/-!
# Publishing an answer

A client that answers over a medium hands one publication to it, with the bytes of the answer, and
does nothing else (`World.handedIn`). The result is what the medium says: its own message is kept,
and every other failure is reported with all of its wording. A client without a medium does nothing.
-/

set_option autoImplicit false
set_option relaxedAutoImplicit false

namespace Roaming

/-- What a failed publication reports of the failure of its medium. -/
inductive Failure.Told : Failure → String → Prop where
  | publish (m : String) : Told (.publish m) m
  | transport (m : String) : Told (.transport m) m
  | other (f : Failure) (hpublish : ∀ m, f ≠ .publish m) (htransport : ∀ m, f ≠ .transport m) :
      Told f f.message

theorem Failure.told_ofPublishing (f : Failure) : ∃ m, f.Told m ∧ f.ofPublishing = .publish m := by
  cases f with
  | publish m => exact ⟨m, .publish m, rfl⟩
  | transport m => exact ⟨m, .transport m, rfl⟩
  | _ => exact ⟨_, .other _ nofun nofun, rfl⟩

namespace Client

variable {P M : Type} {files : Files} {s : Settings} {ofEndpoint : Endpoint → P} {peer : Option P}
  {medium : Option M} {c : Client P M}

theorem medium_of_chooseAnswers {answers : Option (AnswerRoute M)}
    (h : chooseAnswers s medium = .ok answers) : answers.map (·.medium) = medium := by
  unfold chooseAnswers at h
  cases medium with
  | none =>
    cases htimeout : s.timeout with
    | none =>
      rw [htimeout] at h
      cases h
      rfl
    | some timeout =>
      rw [htimeout] at h
      cases h
  | some m =>
    cases htimeout : s.timeout with
    | none =>
      rw [htimeout] at h
      cases h
    | some timeout =>
      simp only [htimeout] at h
      split at h
      · cases h
      · cases h
        rfl

/-- A client that is built publishes on its medium, on the keys of its settings; it is in async
mode if it has one. -/
theorem publisher_of_build (h : (build files s ofEndpoint peer medium).1 = .ok c) :
    c.settings = s ∧ c.publisher = medium.map (⟨·, s.keys⟩) ∧ c.isAsync = medium.isSome := by
  obtain ⟨p, log, answers, -, hanswers, rfl⟩ := parts_of_build h
  obtain rfl := medium_of_chooseAnswers hanswers
  cases answers with
  | none => exact ⟨rfl, rfl, rfl⟩
  | some route => exact ⟨rfl, rfl, rfl⟩

end Client

end Roaming

namespace Roaming.Simulation

open Roaming.Text (Bytes)

/-- A client in a world, in which its peer stands at a position. -/
def placed (c : Client Peer Medium) (i : Nat) : Actor :=
  ⟨c.settings, ⟨i, c.correlator.answers⟩, c.publisher⟩

/-- The clients of a simulation are those that are built, placed where their peers are. -/
theorem Cast.actors_addClient {files : Files} {outlet : Outlet} {setup : ClientSetup}
    {c c' : Cast} {log : Log} (h : c.addClient files outlet setup = (.ok c', log)) :
    ∃ s peer medium client, (Client.build files s Peer.unreachable peer medium).1 = .ok client ∧
      c'.actors = c.actors ++ [placed client c.world.peers.length] ∧
      c'.world.peers = c.world.peers ++ [client.correlator.peer] := by
  unfold addClient at h
  split at h
  · cases h
  · rename_i s hs
    dsimp only at h
    split at h
    · cases h
    · rename_i client hclient
      obtain ⟨rfl, -⟩ := Prod.mk.inj h |>.imp_left Except.ok.inj
      exact ⟨s, _, _, client, hclient, rfl, rfl⟩

/-- How publishing ends, by what the medium says. -/
inductive Published : Except Failure Unit → StepResult → Prop where
  | taken : Published (.ok ()) .done
  | refused {f : Failure} {m : String} (h : f.Told m) : Published (.error f) (.failed (.publish m))

theorem published_conclude (key : Key) (said : Except Failure Unit) :
    Published said (Run.resultOf (Publisher.conclude key said).1) := by
  cases said with
  | ok u => exact .taken
  | error f =>
    obtain ⟨m, hm, hf⟩ := f.told_ofPublishing
    rw [Publisher.conclude, hf]
    exact .refused hm

namespace Medium

/-- What a medium says to a publication, if it says it at once. -/
def said? : Medium → Option (Except Failure Unit)
  | .hub _ => some (.ok ())
  | .puppet _ script =>
    some (match script.failure with
      | some f => .error f
      | none => .ok ())
  | .link _ => none

/-- What is recorded when a publication is handed in. -/
def recorded (pub : Publication) : Medium → List Event
  | .hub name => [.publish name pub.key pub.payload]
  | .puppet name _ => [.publish name pub.key pub.payload]
  | .link _ => []

end Medium

namespace World

/-- The world after a publication was handed in to a medium: the hub offers it to its listeners, and
a link gets one call. -/
def handedIn (medium : Medium) (pub : Publication) (w : World) : World :=
  { w with
    events := w.events ++ medium.recorded pub
    hub := match medium with
      | .hub _ => w.hub.offer pub.key pub.payload
      | _ => w.hub
    stations := match medium with
      | .link i =>
        w.stations.modify i fun s => { s with link := s.link.publish pub.key pub.payload }
      | _ => w.stations }

theorem exists_wake (r : Runnable) (w : World) : ∃ ready, w.wake r = { w with ready } := by
  unfold wake
  split
  · exact ⟨_, rfl⟩
  · exact ⟨_, rfl⟩

theorem exists_wakeAll (rs : List Runnable) (w : World) :
    ∃ ready, w.wakeAll rs = { w with ready } := by
  induction rs generalizing w with
  | nil => exact ⟨_, rfl⟩
  | cons r rs ih =>
    obtain ⟨ready, hready⟩ := exists_wake r w
    obtain ⟨ready', hready'⟩ := ih { w with ready }
    refine ⟨ready', ?_⟩
    change (w.wake r).wakeAll rs = _
    rw [hready, hready']

/-- Who is woken and what is reported may be different, and nothing else. -/
theorem publishOnHub_eq (key : Key) (payload : Bytes) (w : World) : ∃ ready log,
    w.publishOnHub key payload = { w with hub := w.hub.offer key payload, ready, log } := by
  obtain ⟨ready, hready⟩ := exists_wakeAll
    (w.waiters none ((w.hub.registry.on key).filter (!(w.hub.full key).contains ·)))
    (report (w.hub.publish key payload).2 { w with hub := (w.hub.publish key payload).1 })
  exact ⟨ready, _, hready⟩

theorem onLink_eq {i : Nat} {st : Station} {w : World} (hst : w.stations[i]? = some st)
    (f : Redis.Link → Redis.Link × Log) : ∃ ready log, w.onLink i f =
      { w with
        stations := w.stations.modify i fun s => { s with link := (f s.link).1 }
        ready, log } := by
  unfold onLink
  rw [hst, modify_eq_set hst]
  dsimp only [putStation]
  obtain ⟨ready, hready⟩ := exists_wakeAll _ (report (f st.link).2
    { w with stations := w.stations.set i { st with link := (f st.link).1 } })
  rw [hready]
  obtain ⟨ready', hready'⟩ := exists_wake (.agent i) { report (f st.link).2
    { w with stations := w.stations.set i { st with link := (f st.link).1 } } with ready }
  exact ⟨ready', _, hready'⟩

end World

/-- How a client publishes an answer on its medium. -/
structure PublishesOnce (actor : Actor) {op : Operation} (a : Answer op) (medium : Medium)
    (pub : Publication) : Prop where
  /-- Where the medium says at once whether it takes the payload, the world has changed by one
  publication, and the result is what the medium says. -/
  atOnce : ∀ (w : World) said, medium.said? = some said → ∃ ready log result,
    w.answer actor a = (result, { w.handedIn medium pub with ready, log }) ∧ Published said result
  /-- On a link one call is made for the publication, -/
  calls : ∀ (r : Run) i st, medium = .link i → r.world.stations[i]? = some st → ∃ ready log,
    r.startAnswer actor a = ({ r with world := { r.world.handedIn medium pub with ready, log } },
      .publication i st.link.nextCall pub.key)
  /-- and the result is what the link says to the call. -/
  called : ∀ (r : Run) i call said world, r.world.takeOutcome i call = (some said, world) →
    ∃ log result, r.finishCall (.publication i call pub.key) =
      ({ r with world := world.report log }, result) ∧ Published said result

/-- How a client without a medium refuses to publish: nothing happens. -/
structure RefusesToPublish (actor : Actor) {op : Operation} (a : Answer op) : Prop where
  world : ∀ w : World, ∃ m, w.answer actor a = (.failed (.invalidMode m), w)
  run : ∀ r : Run, ∃ m, r.startAnswer actor a = (r, .result (.failed (.invalidMode m)))

section Publishing

variable {actor : Actor} {op : Operation} (a : Answer op)

theorem refusesToPublish (h : actor.publisher = none) : RefusesToPublish actor a where
  world w := by
    refine ⟨"answer publishing requires a pub/sub transport", ?_⟩
    simp only [World.answer, Client.publisherOrFail, h]
  run r := by
    refine ⟨"answer publishing requires a pub/sub transport", ?_⟩
    simp only [Run.startAnswer, Client.publisherOrFail, h]

private theorem answer_on_hub {name : String} {keys : KeySpace}
    (h : actor.publisher = some ⟨.hub name, keys⟩) (w : World) : ∃ ready log,
      w.answer actor a = (.done, { w.handedIn (.hub name)
        ⟨keys.key op.requestTag a.base.transactionID, a.encode⟩ with ready, log }) := by
  generalize hkey : keys.key op.requestTag a.base.transactionID = key
  obtain ⟨ready, log, hw⟩ :=
    World.publishOnHub_eq key a.encode (w.record (.publish name key a.encode))
  refine ⟨ready, log ++ (Publisher.conclude key (.ok ())).2, ?_⟩
  simp only [World.answer, Client.publisherOrFail, h, Publisher.publication, hkey]
  rw [hw]
  rfl

private theorem answer_on_puppet {name : String} {script : Puppet} {keys : KeySpace}
    (h : actor.publisher = some ⟨.puppet name script, keys⟩) (w : World) : ∃ log result,
      w.answer actor a = (result, { w.handedIn (.puppet name script)
        ⟨keys.key op.requestTag a.base.transactionID, a.encode⟩ with log }) ∧
      Published (match script.failure with
        | some f => .error f
        | none => .ok ()) result := by
  simp only [World.answer, Client.publisherOrFail, h, Publisher.publication]
  refine ⟨_, _, rfl, published_conclude (keys.key op.requestTag a.base.transactionID) _⟩

/-- What a client publishes, on the keys of its publisher. -/
theorem answer_of_publisher {p : Publisher Medium} (h : actor.publisher = some p)
    {said : Except Failure Unit} (hsaid : p.medium.said? = some said) (w : World) :
    ∃ ready log result, w.answer actor a =
      (result, { w.handedIn p.medium (p.publication a) with ready, log }) ∧
      Published said result := by
  obtain ⟨medium, keys⟩ := p
  cases medium with
  | hub name =>
    cases hsaid
    obtain ⟨ready, log, hw⟩ := answer_on_hub a h w
    exact ⟨ready, log, _, hw, .taken⟩
  | puppet name script =>
    cases hsaid
    obtain ⟨log, result, hw, hresult⟩ := answer_on_puppet a h w
    exact ⟨w.ready, log, result, hw, hresult⟩
  | link i => cases hsaid

theorem startAnswer_of_link {p : Publisher Medium} (h : actor.publisher = some p) {i : Nat}
    (hlink : p.medium = .link i) {r : Run} {st : Station} (hst : r.world.stations[i]? = some st) :
    ∃ ready log, r.startAnswer actor a =
      ({ r with world := { r.world.handedIn p.medium (p.publication a) with ready, log } },
        .publication i st.link.nextCall (p.publication a).key) := by
  obtain ⟨ready, log, hw⟩ := World.onLink_eq hst
    fun l => (l.publish (p.publication a).key (p.publication a).payload, [])
  refine ⟨ready, log, ?_⟩
  simp only [Run.startAnswer, Client.publisherOrFail, h, hlink, hst, hw, World.handedIn,
    Medium.recorded, List.append_nil]

/-- A call on a link ends with what the link says to it. -/
theorem finishCall_publication {r : Run} {i : Nat} {call : Redis.CallId}
    {said : Except Failure Unit} {world : World} (key : Key)
    (h : r.world.takeOutcome i call = (some said, world)) :
    ∃ log result, r.finishCall (.publication i call key) =
      ({ r with world := world.report log }, result) ∧ Published said result := by
  refine ⟨(Publisher.conclude key said).2, _, ?_, published_conclude key said⟩
  simp only [Run.finishCall, h]

theorem publishesOnce {p : Publisher Medium} (h : actor.publisher = some p) :
    PublishesOnce actor a p.medium (p.publication a) where
  atOnce w _ hsaid := answer_of_publisher a h hsaid w
  calls _ _ _ hlink hst := startAnswer_of_link a h hlink hst
  called _ _ _ _ _ ho := finishCall_publication _ ho

end Publishing

end Roaming.Simulation
