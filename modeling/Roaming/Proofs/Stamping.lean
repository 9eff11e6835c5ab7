import Roaming.Proofs.Posting
import Roaming.Proofs.RoundTrip

/-!
# What a client changes in a request

A client puts its version, the identities of both ends and the tag of the operation into a request
and leaves the rest as it is. Every POST that it hands out for the request carries these bytes, and
every listener is on the key of the transaction and the tag that the peer reads in them.
-/

set_option autoImplicit false
set_option relaxedAutoImplicit false

namespace Roaming

variable {op : Operation}

/-- Whether two requests differ at most in what a client puts in itself. -/
structure Request.SameContent (r r' : Request op) : Prop where
  transactionID : r'.base.transactionID = r.base.transactionID
  senderNSID : r'.base.senderNSID = r.base.senderNSID
  receiverNSID : r'.base.receiverNSID = r.base.receiverNSID
  body : r'.body = r.body

/-- Whether two settings put the same into requests and await their answers on the same keys. -/
structure Settings.SameStamp (s s' : Settings) : Prop where
  version : s'.version = s.version
  sender : s'.sender = s.sender
  receiver : s'.receiver = s.receiver
  keys : s'.keys = s.keys

/-- What the peer reads of a request. -/
def Request.stamped (s : Settings) (r : Request op) : Request op where
  base := {
    protocolVersion := s.version
    senderID := s.sender
    receiverID := s.receiver
    transactionID := r.base.transactionID
    messageType := some op.requestTag
    senderNSID := r.base.senderNSID
    receiverNSID := r.base.receiverNSID }
  body := r.body

theorem Settings.stamp_eq_stamped (s : Settings) (r : Request op) : s.stamp r = r.stamped s := rfl

theorem Request.survives_stamped {r : Request op} (h : r.Survives) (s : Settings) :
    (r.stamped s).Survives := h

theorem Request.SameContent.stamped_eq {r r' : Request op} (h : r.SameContent r') {s s' : Settings}
    (hs : s.SameStamp s') : r'.stamped s' = r.stamped s := by
  rw [stamped, stamped, hs.version, hs.sender, hs.receiver, h.transactionID, h.senderNSID,
    h.receiverNSID, h.body]

namespace Client

variable {P M P' M' : Type}

theorem decode_requestBody (c : Client P M) {r : Request op} (h : r.Survives) :
    Request.decode op (c.requestBody r) = .ok (r.stamped c.settings) := by
  rw [requestBody, Settings.stamp_eq_stamped]
  exact Request.decode_encode (r.survives_stamped h c.settings)

theorem requestBody_congr {c : Client P M} {c' : Client P' M'}
    (hs : c.settings.SameStamp c'.settings) {r r' : Request op} (h : r.SameContent r') :
    c'.requestBody r' = c.requestBody r := by
  rw [requestBody, requestBody, Settings.stamp_eq_stamped, Settings.stamp_eq_stamped,
    h.stamped_eq hs]

theorem requestKey_congr {c : Client P M} {c' : Client P' M'}
    (hs : c.settings.SameStamp c'.settings) {r r' : Request op} (h : r.SameContent r') :
    c'.requestKey r' = c.requestKey r := by
  rw [requestKey, requestKey, keyFor, keyFor, hs.keys, h.transactionID]

end Client

namespace Simulation

/-- Whether a task is a request of a client at its beginning, in a scene that can be reached. Its
name, how it can be cancelled and the mode of the client are open. -/
structure Scene.Requests (s : Scene) (t : Task) (actor : Actor) (r : Request op) : Prop where
  reachable : ∃ (s₀ : Scene) (acts : List Act), s₀.IsOpening ∧ s = s₀.after acts
  mem : t ∈ s.world.tasks
  fresh : t.stage = .fresh
  job : t.job = .request actor op r

namespace Scene

variable {s : Scene}

/-- Every POST of a task carries its exchange. -/
theorem Sound.serves_after (h : s.Sound) {t : Task} (ht : t ∈ s.world.tasks)
    (hst : t.stage = .fresh) {e : Errand} (he : t.job.errand? = some e) (acts : List Act) :
    ∀ c ∈ (s.after acts).world.couriers, c.waiter = t.id → c.Serves t.id e := by
  have hplace := h.tidy.inPlace t ht
  rw [Task.InPlace, hst] at hplace
  have hrun : ∀ acts, (s.after acts).Sound ∧ t.id < (s.after acts).world.nextId ∧
      (∀ u ∈ (s.after acts).world.tasks, u.id = t.id → u.job = t.job) ∧
      ∀ c ∈ (s.after acts).world.couriers, c.waiter = t.id → c.Serves t.id e := by
    refine after_induction (P := fun s => s.Sound ∧ t.id < s.world.nextId ∧
      (∀ u ∈ s.world.tasks, u.id = t.id → u.job = t.job) ∧
      ∀ c ∈ s.world.couriers, c.waiter = t.id → c.Serves t.id e)
      ⟨h, h.seated.ids_lt t ht, ?_, fun c hc hw => absurd hw (hplace c hc)⟩ ?_
    · intro u hu hid
      rw [h.seated.task_unique hu ht hid]
    · rintro s' a ⟨h', hid, hjob, hserves⟩
      refine ⟨h'.act a, Nat.lt_of_lt_of_le hid (h'.nextId_act a), h'.job_kept hid hjob a, ?_⟩
      intro c hc hw
      by_cases hnone : s'.world.NoCourier t.id
      · obtain ⟨-, u, hu, huid, e', he', hc', -⟩ := h'.courier_new hnone hc hw
        rw [hjob u hu huid, he] at he'
        cases he'
        exact hc'
      · unfold World.NoCourier at hnone
        push Not at hnone
        obtain ⟨d, hd, hdw⟩ := hnone
        obtain ⟨d', hd', -, hlater⟩ := h'.courier_act hd a
        have hserves' := hlater t.id e (hserves d hd hdw)
        rw [(h'.act a).courier_unique hc hd' (hw.trans hserves'.waiter.symm)]
        exact hserves'
  exact (hrun acts).2.2.2

variable {t : Task} {actor : Actor} {r : Request op}

theorem Requests.sound (h : s.Requests t actor r) : s.Sound := by
  obtain ⟨s₀, acts, hopening, rfl⟩ := h.reachable
  exact hopening.sound_after acts

theorem Requests.errand (h : s.Requests t actor r) : t.job.errand? =
    some ⟨actor.correlator, actor.requestKey r, actor.requestBody r⟩ := by
  rw [h.job]
  rfl

theorem Requests.body_eq (h : s.Requests t actor r) {acts : List Act} {c : Courier}
    (hc : c ∈ (s.after acts).world.couriers) (hw : c.waiter = t.id) :
    c.post.body = actor.requestBody r :=
  (h.sound.serves_after h.mem h.fresh h.errand acts c hc hw).body

theorem Requests.key_eq (h : s.Requests t actor r) {acts : List Act} {u : Task}
    (hu : u ∈ (s.after acts).world.tasks) (hid : u.id = t.id) {sub : Subscription}
    (hsub : u.subscription? = some sub) : sub.key = actor.requestKey r := by
  have hjob := h.sound.job_after h.mem acts u hu hid
  have he := h.errand
  rw [← hjob] at he
  exact (h.sound.after acts).key_of_listener hu he hsub

/-- The peer reads a request with the version, the identities and the tag of the client and all
else as it came, and the listener is on the key of what it reads. Requests that differ in
nothing else are posted with the same bytes and awaited on the same key, whatever the mode and
however they are made. -/
theorem requests_are_stamped_and_no_more (h : s.Requests t actor r) (hr : r.Survives) :
    (∀ acts, ∀ c ∈ (s.after acts).world.couriers, c.waiter = t.id →
      c.post.body = actor.requestBody r) ∧
    Request.decode op (actor.requestBody r) = .ok ⟨⟨actor.settings.version, actor.settings.sender,
      actor.settings.receiver, r.base.transactionID, some op.requestTag, r.base.senderNSID,
      r.base.receiverNSID⟩, r.body⟩ ∧
    (∀ acts, ∀ u ∈ (s.after acts).world.tasks, u.id = t.id → ∀ sub, u.subscription? = some sub →
      ∀ q tag, Request.decode op (actor.requestBody r) = .ok q → q.base.messageType = some tag →
        sub.key = actor.settings.keys.key tag q.base.transactionID) ∧
    ∀ (s' : Scene) (t' : Task) (actor' : Actor) (r' : Request op), s'.Requests t' actor' r' →
      actor.settings.SameStamp actor'.settings → r.SameContent r' → ∀ acts acts',
      (∀ c ∈ (s.after acts).world.couriers, c.waiter = t.id →
        ∀ c' ∈ (s'.after acts').world.couriers, c'.waiter = t'.id → c'.post.body = c.post.body) ∧
      ∀ u ∈ (s.after acts).world.tasks, u.id = t.id → ∀ sub, u.subscription? = some sub →
        ∀ u' ∈ (s'.after acts').world.tasks, u'.id = t'.id → ∀ sub', u'.subscription? = some sub' →
          sub'.key = sub.key := by
  have hread := actor.decode_requestBody hr
  refine ⟨fun acts c hc hw => h.body_eq hc hw, hread, ?_, ?_⟩
  · intro acts u hu hid sub hsub q tag hq htag
    obtain rfl : q = r.stamped actor.settings := (Except.ok.inj (hread.symm.trans hq)).symm
    obtain rfl : tag = op.requestTag := (Option.some.inj htag).symm
    rw [h.key_eq hu hid hsub]
    rfl
  · intro s' t' actor' r' h' hstamp hcontent acts acts'
    constructor
    · intro c hc hw c' hc' hw'
      rw [h.body_eq hc hw, h'.body_eq hc' hw']
      exact Client.requestBody_congr hstamp hcontent
    · intro u hu hid sub hsub u' hu' hid' sub' hsub'
      rw [h.key_eq hu hid hsub, h'.key_eq hu' hid' hsub']
      exact Client.requestKey_congr hstamp hcontent

/-- A client without a protocol version. -/
def terseClient (answers : Option (AnswerRoute Medium)) : Actor where
  settings := { sender := "010203", receiver := "030201", version := "" }
  correlator := ⟨0, answers⟩
  publisher := none

/-- A request to stop that holds what another client once put in. -/
def staleRequest : Request .prStop :=
  ⟨⟨"9.9", "x", "y", 4294967295, some ⟨.homeNS, .answer⟩, some "", none⟩, (some "é", some 0, ())⟩

/-- The same request as it is first made. -/
def plainRequest : Request .prStop :=
  ⟨{ transactionID := 4294967295, senderNSID := some "" }, (some "é", some 0, ())⟩

/-- What was put in before does not come through, and the plain request of a client in sync mode,
which can be cancelled, is posted alike. -/
theorem stale_request_is_stamped_afresh :
    let async := (opening [silentPeer]).after [.start "t0"
      (.request (terseClient (some ⟨.hub "c0", .ofMillis 1000, .failFast⟩)) .prStop staleRequest)
      .never]
    let sync := (opening [silentPeer]).after [.start "t1"
      (.request (terseClient none) .prStop plainRequest) .armed]
    ∃ c ∈ (async.after [.move (.task 0), .move (.task 0)]).world.couriers,
      ∃ c' ∈ (sync.after [.move (.task 0)]).world.couriers,
        Request.decode .prStop c.post.body = .ok ⟨⟨"", "010203", "030201", 4294967295,
          some ⟨.prStop, .request⟩, some "", none⟩, (some "é", some 0, ())⟩ ∧
        c'.post.body = c.post.body := by
  intro async sync
  have hasync : async.Requests { id := 0, name := "t0", job := .request (terseClient
      (some ⟨.hub "c0", .ofMillis 1000, .failFast⟩)) .prStop staleRequest } _ staleRequest :=
    ⟨⟨opening [silentPeer], _, opening_isOpening _, rfl⟩, List.mem_singleton_self _, rfl, rfl⟩
  have hsync : sync.Requests ⟨0, "t1", .request (terseClient none) .prStop plainRequest, .armed,
      false, false, .fresh⟩ _ plainRequest :=
    ⟨⟨opening [silentPeer], _, opening_isOpening _, rfl⟩, List.mem_singleton_self _, rfl, rfl⟩
  have hsurvives : staleRequest.Survives := ⟨trivial, trivial, trivial⟩
  have hposted : (async.after [.move (.task 0), .move (.task 0)]).world.couriers.map (·.waiter) =
      [0] := rfl
  have hposted' : (sync.after [.move (.task 0)]).world.couriers.map (·.waiter) = [0] := rfl
  obtain ⟨c, hc, hw⟩ := List.mem_map.mp (hposted ▸ List.mem_singleton_self 0)
  obtain ⟨c', hc', hw'⟩ := List.mem_map.mp (hposted' ▸ List.mem_singleton_self 0)
  obtain ⟨hbody, hread, -, halike⟩ := requests_are_stamped_and_no_more hasync hsurvives
  refine ⟨c, hc, c', hc', ?_, ?_⟩
  · rw [hbody _ c hc hw]
    exact hread
  · exact (halike sync _ _ plainRequest hsync ⟨rfl, rfl, rfl, rfl⟩ ⟨rfl, rfl, rfl, rfl⟩ _ _).1 c
      hc hw c' hc' hw'

end Scene

end Simulation

end Roaming
