import Mathlib.Data.List.Basic
import Mathlib.Order.WellFounded
import Roaming.Client.Answering
import Roaming.Client.Request

/-!
# Which settings a client is built from

Settings can be flawed in eight ways, given the peer and the medium that are handed in besides them.
A client is built if they are flawed in none of these ways; otherwise the first flaw is reported, in
a fixed order: the identities, the way to the peer, the way of the answers.
-/

set_option autoImplicit false
set_option relaxedAutoImplicit false

namespace Roaming

open Roaming.Text (Bytes)

/-- What can be wrong with settings. -/
inductive Flaw where
  | noSender
  | noReceiver
  /-- An endpoint is described besides the peer that is handed in. -/
  | besidePeer
  | noServer
  /-- A certificate without its key, or a key without its certificate. -/
  | halfIdentity
  | noTimeout
  | zeroTimeout
  /-- A longest wait for answers that do not come over a medium. -/
  | idleTimeout
deriving DecidableEq

namespace Flaw

/-- The flaws in the order in which they are looked for. -/
def order : List Flaw :=
  [.noSender, .noReceiver, .besidePeer, .noServer, .halfIdentity, .noTimeout, .zeroTimeout,
    .idleTimeout]

/-- How a flaw is reported: what is absent as missing, what is contradictory as a conflict. -/
def failure : Flaw → Failure
  | .noSender => .missingConfig "sender_id"
  | .noReceiver => .missingConfig "receiver_id"
  | .noServer => .missingConfig "server"
  | .noTimeout => .missingConfig "async_timeout"
  | .besidePeer =>
    .configConflict "server and TLS settings cannot be combined with an injected http transport"
  | .halfIdentity => .configConflict "tls_cert and tls_key must be set together"
  | .zeroTimeout => .configConflict "async_timeout must be greater than zero"
  | .idleTimeout => .configConflict "async_timeout set without a pub/sub transport"

variable {P M : Type}

/-- Whether settings have a flaw, given the peer and the medium that are handed in. -/
def IsIn (s : Settings) (peer : Option P) (medium : Option M) : Flaw → Prop
  | .noSender => s.sender = ""
  | .noReceiver => s.receiver = ""
  | .besidePeer =>
    peer.isSome ∧ ¬ (s.server = "" ∧ s.caCert = none ∧ s.tlsCert = none ∧ s.tlsKey = none)
  | .noServer => peer = none ∧ s.server = ""
  | .halfIdentity => peer = none ∧ ¬ (s.tlsCert.isSome ↔ s.tlsKey.isSome)
  | .noTimeout => medium.isSome ∧ s.timeout = none
  | .zeroTimeout => medium.isSome ∧ s.timeout = some ⟨0⟩
  | .idleTimeout => medium = none ∧ s.timeout.isSome

/-- Whether a flaw is the first that is found. -/
structure IsFirst (s : Settings) (peer : Option P) (medium : Option M) (flaw : Flaw) : Prop where
  present : flaw.IsIn s peer medium
  first : ∀ g : Flaw, order.idxOf g < order.idxOf flaw → ¬ g.IsIn s peer medium

section First

variable {s : Settings} {peer : Option P} {medium : Option M} {flaw flaw' : Flaw}

theorem mem_order (flaw : Flaw) : flaw ∈ order := by
  cases flaw <;> decide

theorem IsFirst.unique (h : flaw.IsFirst s peer medium) (h' : flaw'.IsFirst s peer medium) :
    flaw = flaw' := by
  have hle : order.idxOf flaw ≤ order.idxOf flaw' := by
    by_contra hlt
    exact h.first flaw' (Nat.lt_of_not_le hlt) h'.present
  have hge : order.idxOf flaw' ≤ order.idxOf flaw := by
    by_contra hlt
    exact h'.first flaw (Nat.lt_of_not_le hlt) h.present
  exact (List.idxOf_inj (mem_order flaw)).mp (Nat.le_antisymm hle hge)

theorem exists_isFirst (h : flaw.IsIn s peer medium) : ∃ g : Flaw, g.IsFirst s peer medium := by
  obtain ⟨g, hg, hmin⟩ := WellFounded.has_min (measure fun g : Flaw => order.idxOf g).wf
    {g | g.IsIn s peer medium} ⟨flaw, h⟩
  exact ⟨g, hg, fun g' hlt hin => hmin g' hin hlt⟩

end First

end Flaw

/-- Whether settings are consistent, given the peer and the medium that are handed in. -/
structure Settings.IsConsistent {P M : Type} (s : Settings) (peer : Option P) (medium : Option M) :
    Prop where
  sender : s.sender ≠ ""
  receiver : s.receiver ≠ ""
  /-- The peer is handed in and no endpoint is described, or an endpoint is described. -/
  peer : peer.isSome ∧ (s.server = "" ∧ s.caCert = none ∧ s.tlsCert = none ∧ s.tlsKey = none) ∨
    peer = none ∧ s.server ≠ "" ∧ (s.tlsCert.isSome ↔ s.tlsKey.isSome)
  /-- Answers are waited for if they come over a medium, -/
  answers : medium.isSome ↔ s.timeout.isSome
  /-- and not for no time at all. -/
  timeout : s.timeout ≠ some ⟨0⟩

/-- Whether the files that settings name can be read and hold what they should. -/
structure Settings.FilesAccepted (s : Settings) (files : Files) : Prop where
  authorities : ∀ path, s.caCert = some path → ∃ certificates,
    Endpoint.readAuthorities files path = .ok certificates ∧
      certificates.all Tls.isCertificate = true
  identity : ∀ cert key, s.tlsCert = some cert → s.tlsKey = some key → ∃ identity,
    Endpoint.readIdentity files cert key = .ok identity ∧ identity.isUsable = true

section Consistent

variable {P M : Type} {s : Settings} {peer : Option P} {medium : Option M}

/-- Consistent settings are those without a flaw. -/
theorem Settings.isConsistent_iff :
    s.IsConsistent peer medium ↔ ∀ flaw : Flaw, ¬ flaw.IsIn s peer medium := by
  constructor
  · rintro ⟨hsender, hreceiver, hpeer, hanswers, htimeout⟩ flaw hin
    cases flaw with
    | noSender => exact hsender hin
    | noReceiver => exact hreceiver hin
    | besidePeer =>
      rcases hpeer with ⟨-, hnone⟩ | ⟨hnone, -⟩
      · exact hin.2 hnone
      · rw [Flaw.IsIn, hnone] at hin
        cases hin.1
    | noServer =>
      rcases hpeer with ⟨hsome, -⟩ | ⟨-, hserver, -⟩
      · rw [hin.1] at hsome
        cases hsome
      · exact hserver hin.2
    | halfIdentity =>
      rcases hpeer with ⟨hsome, -⟩ | ⟨-, -, hpair⟩
      · rw [hin.1] at hsome
        cases hsome
      · exact hin.2 hpair
    | noTimeout =>
      have hsome := hanswers.mp hin.1
      rw [hin.2] at hsome
      cases hsome
    | zeroTimeout => exact htimeout hin.2
    | idleTimeout =>
      have hsome := hanswers.mpr hin.2
      rw [hin.1] at hsome
      cases hsome
  · intro h
    have hanswers : medium.isSome ↔ s.timeout.isSome := by
      constructor
      · intro hmedium
        by_contra hnone
        exact h .noTimeout ⟨hmedium, Option.not_isSome_iff_eq_none.mp hnone⟩
      · intro htimeout
        by_contra hnone
        exact h .idleTimeout ⟨Option.not_isSome_iff_eq_none.mp hnone, htimeout⟩
    refine ⟨h .noSender, h .noReceiver, ?_, hanswers, ?_⟩
    · cases peer with
      | some p =>
        have hnone : s.server = "" ∧ s.caCert = none ∧ s.tlsCert = none ∧ s.tlsKey = none := by
          by_contra hdescribed
          exact h .besidePeer ⟨rfl, hdescribed⟩
        exact .inl ⟨rfl, hnone⟩
      | none =>
        have hserver : s.server ≠ "" := fun hempty => h .noServer ⟨rfl, hempty⟩
        have hpair : s.tlsCert.isSome ↔ s.tlsKey.isSome := by
          by_contra hhalf
          exact h .halfIdentity ⟨rfl, hhalf⟩
        exact .inr ⟨rfl, hserver, hpair⟩
    · intro hzero
      refine h .zeroTimeout ⟨hanswers.mpr ?_, hzero⟩
      rw [hzero]
      rfl

end Consistent

/-! ### The way to the peer -/

namespace Endpoint

variable {files : Files} {s : Settings}

/-- The certificates that settings name, if any. -/
def authorities (files : Files) (s : Settings) : Except Failure (List Bytes) :=
  match s.caCert with
  | some path => readAuthorities files path
  | none => .ok []

/-- The identity that settings name, if any. -/
def identity (files : Files) (s : Settings) : Except Failure (Option Identity) :=
  match s.tlsCert, s.tlsKey with
  | some cert, some key => (readIdentity files cert key).map some
  | none, none => .ok none
  | _, _ => .error Flaw.halfIdentity.failure

/-- An endpoint is made of certificates and an identity, which are read in this order. -/
theorem create_eq (hserver : s.server ≠ "") : create files s =
    (authorities files s).bind fun authorities => (identity files s).bind fun identity =>
      if authorities.all Tls.isCertificate && identity.all (·.isUsable) then
        .ok (⟨s.server, s.tlsCert.isSome⟩,
          [.info s!"http: transport ready for {s.server} (mtls: {s.tlsCert.isSome})"])
      else .error (.transport "http client build error: builder error") := by
  unfold create authorities identity
  simp only [if_neg hserver]
  cases s.caCert <;> cases s.tlsCert <;> cases s.tlsKey <;> rfl

theorem create_of_noServer (h : s.server = "") :
    create files s = .error Flaw.noServer.failure := by
  unfold create
  simp only [if_pos h]
  rfl

theorem exists_authorities (hfiles : s.FilesAccepted files) :
    ∃ certificates, authorities files s = .ok certificates ∧
      certificates.all Tls.isCertificate = true := by
  unfold authorities
  cases hca : s.caCert with
  | none => exact ⟨[], rfl, rfl⟩
  | some path => exact hfiles.authorities path hca

theorem identity_of_half (h : ¬ (s.tlsCert.isSome ↔ s.tlsKey.isSome)) :
    identity files s = .error Flaw.halfIdentity.failure := by
  unfold identity
  cases hcert : s.tlsCert with
  | none =>
    cases hkey : s.tlsKey with
    | none => exact absurd (by rw [hcert, hkey]) h
    | some key => rfl
  | some cert =>
    cases hkey : s.tlsKey with
    | none => rfl
    | some key => exact absurd (by rw [hcert, hkey]; rfl) h

theorem exists_identity (hfiles : s.FilesAccepted files)
    (h : s.tlsCert.isSome ↔ s.tlsKey.isSome) :
    ∃ shown, identity files s = .ok shown ∧ shown.all (·.isUsable) = true := by
  unfold identity
  cases hcert : s.tlsCert with
  | none =>
    cases hkey : s.tlsKey with
    | none => exact ⟨none, rfl, rfl⟩
    | some key =>
      rw [hcert, hkey] at h
      cases h.mpr rfl
  | some cert =>
    cases hkey : s.tlsKey with
    | none =>
      rw [hcert, hkey] at h
      cases h.mp rfl
    | some key =>
      obtain ⟨shown, hread, husable⟩ := hfiles.identity cert key hcert hkey
      refine ⟨some shown, ?_, husable⟩
      simp only [hread]
      rfl

theorem create_of_half (hfiles : s.FilesAccepted files) (hserver : s.server ≠ "")
    (h : ¬ (s.tlsCert.isSome ↔ s.tlsKey.isSome)) :
    create files s = .error Flaw.halfIdentity.failure := by
  obtain ⟨certificates, hcertificates, -⟩ := exists_authorities hfiles
  rw [create_eq hserver, hcertificates, identity_of_half h]
  rfl

theorem exists_create (hfiles : s.FilesAccepted files) (hserver : s.server ≠ "")
    (h : s.tlsCert.isSome ↔ s.tlsKey.isSome) :
    ∃ log, create files s = .ok (⟨s.server, s.tlsCert.isSome⟩, log) := by
  obtain ⟨certificates, hcertificates, hall⟩ := exists_authorities hfiles
  obtain ⟨shown, hshown, husable⟩ := exists_identity hfiles h
  rw [create_eq hserver, hcertificates, hshown]
  simp only [Except.bind, hall, husable, Bool.and_self, if_true]
  exact ⟨_, rfl⟩

end Endpoint

namespace Client

variable {P M : Type} {files : Files} {s : Settings} {ofEndpoint : Endpoint → P} {peer : Option P}
  {medium : Option M}

/-- The peer that settings lead to. -/
def peerOf (s : Settings) (ofEndpoint : Endpoint → P) (peer : Option P) : P :=
  peer.getD (ofEndpoint ⟨s.server, s.tlsCert.isSome⟩)

theorem choosePeer_of_besidePeer (h : Flaw.besidePeer.IsIn s peer medium) :
    choosePeer files s ofEndpoint peer = .error Flaw.besidePeer.failure := by
  obtain ⟨hpeer, hdescribed⟩ := h
  obtain ⟨p, rfl⟩ := Option.isSome_iff_exists.mp hpeer
  have hdescribes : s.describesEndpoint = true := by
    by_contra hnone
    refine hdescribed ?_
    simpa [Settings.describesEndpoint, and_assoc] using hnone
  simp only [choosePeer, hdescribes, if_true]
  rfl

theorem choosePeer_of_noServer (h : Flaw.noServer.IsIn s peer medium) :
    choosePeer files s ofEndpoint peer = .error Flaw.noServer.failure := by
  obtain ⟨rfl, hserver⟩ := h
  rw [choosePeer, Endpoint.create_of_noServer hserver]
  rfl

theorem choosePeer_of_halfIdentity (hfiles : s.FilesAccepted files)
    (hserver : ¬ Flaw.noServer.IsIn s peer medium) (h : Flaw.halfIdentity.IsIn s peer medium) :
    choosePeer files s ofEndpoint peer = .error Flaw.halfIdentity.failure := by
  obtain ⟨rfl, hhalf⟩ := h
  have hdescribed : s.server ≠ "" := fun hempty => hserver ⟨rfl, hempty⟩
  rw [choosePeer, Endpoint.create_of_half hfiles hdescribed hhalf]
  rfl

/-- Without a flaw in the way to the peer there is one. -/
theorem exists_choosePeer (hfiles : s.FilesAccepted files)
    (hbeside : ¬ Flaw.besidePeer.IsIn s peer medium) (hserver : ¬ Flaw.noServer.IsIn s peer medium)
    (hhalf : ¬ Flaw.halfIdentity.IsIn s peer medium) :
    ∃ log, choosePeer files s ofEndpoint peer = .ok (peerOf s ofEndpoint peer, log) := by
  cases peer with
  | some p =>
    have hnone : s.server = "" ∧ s.caCert = none ∧ s.tlsCert = none ∧ s.tlsKey = none := by
      by_contra hdescribed
      exact hbeside ⟨rfl, hdescribed⟩
    have hdescribes : s.describesEndpoint = false := by
      simp [Settings.describesEndpoint, hnone]
    simp only [choosePeer, hdescribes, Bool.false_eq_true, if_false]
    exact ⟨_, rfl⟩
  | none =>
    have hdescribed : s.server ≠ "" := fun hempty => hserver ⟨rfl, hempty⟩
    have hpair : s.tlsCert.isSome ↔ s.tlsKey.isSome := by
      by_contra hodd
      exact hhalf ⟨rfl, hodd⟩
    obtain ⟨log, hcreate⟩ := Endpoint.exists_create hfiles hdescribed hpair
    rw [choosePeer, hcreate]
    exact ⟨log, rfl⟩

/-! ### The way of the answers -/

/-- The way of the answers that settings lead to. -/
def routeOf (s : Settings) (medium : Option M) : Option (AnswerRoute M) :=
  medium.bind fun m => s.timeout.map fun timeout => ⟨m, timeout, s.policy⟩

theorem chooseAnswers_of_noTimeout (h : Flaw.noTimeout.IsIn s peer medium) :
    chooseAnswers s medium = .error Flaw.noTimeout.failure := by
  obtain ⟨hmedium, htimeout⟩ := h
  obtain ⟨m, rfl⟩ := Option.isSome_iff_exists.mp hmedium
  simp only [chooseAnswers, htimeout]
  rfl

theorem chooseAnswers_of_zeroTimeout (h : Flaw.zeroTimeout.IsIn s peer medium) :
    chooseAnswers s medium = .error Flaw.zeroTimeout.failure := by
  obtain ⟨hmedium, htimeout⟩ := h
  obtain ⟨m, rfl⟩ := Option.isSome_iff_exists.mp hmedium
  simp only [chooseAnswers, htimeout]
  rfl

theorem chooseAnswers_of_idleTimeout (h : Flaw.idleTimeout.IsIn s peer medium) :
    chooseAnswers s medium = .error Flaw.idleTimeout.failure := by
  obtain ⟨rfl, htimeout⟩ := h
  obtain ⟨d, hd⟩ := Option.isSome_iff_exists.mp htimeout
  simp only [chooseAnswers, hd]
  rfl

/-- Without a flaw in the way of the answers it is as the settings say. -/
theorem chooseAnswers_eq (hmissing : ¬ Flaw.noTimeout.IsIn s peer medium)
    (hzero : ¬ Flaw.zeroTimeout.IsIn s peer medium)
    (hidle : ¬ Flaw.idleTimeout.IsIn s peer medium) :
    chooseAnswers s medium = .ok (routeOf s medium) := by
  cases medium with
  | none =>
    have htimeout : s.timeout = none := by
      by_contra hsome
      exact hidle ⟨rfl, Option.isSome_iff_ne_none.mpr hsome⟩
    simp only [chooseAnswers, htimeout]
    rfl
  | some m =>
    cases htimeout : s.timeout with
    | none => exact absurd ⟨rfl, htimeout⟩ hmissing
    | some d =>
      have hnanos : d.nanos ≠ 0 := by
        intro hnone
        exact hzero ⟨rfl, by rw [htimeout, ← hnone]⟩
      simp only [chooseAnswers, htimeout, if_neg hnanos, routeOf]
      rfl

/-! ### The client -/

/-- The client that settings lead to. -/
def described (s : Settings) (ofEndpoint : Endpoint → P) (peer : Option P) (medium : Option M) :
    Client P M where
  settings := s
  correlator := ⟨peerOf s ofEndpoint peer, routeOf s medium⟩
  publisher := (routeOf s medium).map fun route => ⟨route.medium, s.keys⟩

section Build

variable {f : Failure} {p : P} {log : Log}

theorem build_of_peer_error (hsender : s.sender ≠ "") (hreceiver : s.receiver ≠ "")
    (h : choosePeer files s ofEndpoint peer = .error f) :
    (build files s ofEndpoint peer medium).1 = .error f := by
  rw [build, if_neg hsender, if_neg hreceiver, h]

theorem build_of_answers_error (hsender : s.sender ≠ "") (hreceiver : s.receiver ≠ "")
    (hpeer : choosePeer files s ofEndpoint peer = .ok (p, log))
    (h : chooseAnswers s medium = .error f) :
    (build files s ofEndpoint peer medium).1 = .error f := by
  rw [build, if_neg hsender, if_neg hreceiver, hpeer, h]

/-- Without a flaw in the identities and in the way to the peer, the way of the answers is looked
at. -/
theorem reach_answers (hfiles : s.FilesAccepted files)
    (h : ∀ g : Flaw, Flaw.order.idxOf g < Flaw.order.idxOf .noTimeout → ¬ g.IsIn s peer medium) :
    s.sender ≠ "" ∧ s.receiver ≠ "" ∧
      ∃ log, choosePeer files s ofEndpoint peer = .ok (peerOf s ofEndpoint peer, log) :=
  ⟨h .noSender (by decide), h .noReceiver (by decide),
    exists_choosePeer hfiles (h .besidePeer (by decide)) (h .noServer (by decide))
      (h .halfIdentity (by decide))⟩

/-- The first flaw is what is reported. -/
theorem build_of_isFirst (hfiles : s.FilesAccepted files) {flaw : Flaw}
    (h : flaw.IsFirst s peer medium) :
    (build files s ofEndpoint peer medium).1 = .error flaw.failure := by
  obtain ⟨hin, hfirst⟩ := h
  cases flaw with
  | noSender =>
    have hsender : s.sender = "" := hin
    rw [build, if_pos hsender]
    rfl
  | noReceiver =>
    have hsender : s.sender ≠ "" := hfirst .noSender (by decide)
    have hreceiver : s.receiver = "" := hin
    rw [build, if_neg hsender, if_pos hreceiver]
    rfl
  | besidePeer =>
    exact build_of_peer_error (hfirst .noSender (by decide)) (hfirst .noReceiver (by decide))
      (choosePeer_of_besidePeer hin)
  | noServer =>
    exact build_of_peer_error (hfirst .noSender (by decide)) (hfirst .noReceiver (by decide))
      (choosePeer_of_noServer hin)
  | halfIdentity =>
    exact build_of_peer_error (hfirst .noSender (by decide)) (hfirst .noReceiver (by decide))
      (choosePeer_of_halfIdentity hfiles (hfirst .noServer (by decide)) hin)
  | noTimeout =>
    obtain ⟨hsender, hreceiver, log, hpeer⟩ := reach_answers hfiles hfirst
    exact build_of_answers_error hsender hreceiver hpeer (chooseAnswers_of_noTimeout hin)
  | zeroTimeout =>
    obtain ⟨hsender, hreceiver, log, hpeer⟩ := reach_answers hfiles fun g hg =>
      hfirst g (Nat.lt_trans hg (by decide))
    exact build_of_answers_error hsender hreceiver hpeer (chooseAnswers_of_zeroTimeout hin)
  | idleTimeout =>
    obtain ⟨hsender, hreceiver, log, hpeer⟩ := reach_answers hfiles fun g hg =>
      hfirst g (Nat.lt_trans hg (by decide))
    exact build_of_answers_error hsender hreceiver hpeer (chooseAnswers_of_idleTimeout hin)

/-- Consistent settings lead to their client. -/
theorem build_of_isConsistent (hfiles : s.FilesAccepted files) (h : s.IsConsistent peer medium) :
    (build files s ofEndpoint peer medium).1 = .ok (described s ofEndpoint peer medium) := by
  have hnone := Settings.isConsistent_iff.mp h
  have hsender : s.sender ≠ "" := hnone .noSender
  have hreceiver : s.receiver ≠ "" := hnone .noReceiver
  have hpeer : ∃ log, choosePeer files s ofEndpoint peer = .ok (peerOf s ofEndpoint peer, log) :=
    exists_choosePeer hfiles (hnone .besidePeer) (hnone .noServer) (hnone .halfIdentity)
  obtain ⟨log, hpeer⟩ := hpeer
  have hanswers := chooseAnswers_eq (hnone .noTimeout) (hnone .zeroTimeout) (hnone .idleTimeout)
  rw [build, if_neg hsender, if_neg hreceiver, hpeer, hanswers]
  rfl

theorem exists_build_iff (hfiles : s.FilesAccepted files) :
    (∃ c, (build files s ofEndpoint peer medium).1 = .ok c) ↔ s.IsConsistent peer medium := by
  constructor
  · rintro ⟨c, hc⟩
    -- Any flaw would come with a first one, which would have been reported.
    refine Settings.isConsistent_iff.mpr fun flaw hin => ?_
    obtain ⟨g, hg⟩ := Flaw.exists_isFirst hin
    rw [build_of_isFirst hfiles hg] at hc
    cases hc
  · intro h
    exact ⟨_, build_of_isConsistent hfiles h⟩

theorem build_error_iff (hfiles : s.FilesAccepted files) :
    (build files s ofEndpoint peer medium).1 = .error f ↔
      ∃ flaw : Flaw, flaw.IsFirst s peer medium ∧ f = flaw.failure := by
  constructor
  · intro h
    have hflawed : ∃ flaw : Flaw, flaw.IsIn s peer medium := by
      by_contra hnone
      have hconsistent := Settings.isConsistent_iff.mpr fun flaw hin => hnone ⟨flaw, hin⟩
      rw [build_of_isConsistent hfiles hconsistent] at h
      cases h
    obtain ⟨flaw, hin⟩ := hflawed
    obtain ⟨g, hg⟩ := Flaw.exists_isFirst hin
    rw [build_of_isFirst hfiles hg] at h
    exact ⟨g, hg, (Except.error.inj h).symm⟩
  · rintro ⟨flaw, hflaw, rfl⟩
    exact build_of_isFirst hfiles hflaw

end Build

/-- What publishing an answer through a client comes to, given what the medium says to each
publication. -/
def published {op : Operation} (c : Client P M) (a : Answer op)
    (said : Publication → Except Failure Unit) : Except Failure Unit :=
  match c.publisherOrFail with
  | .error f => .error f
  | .ok p => (Publisher.conclude (p.publication a).key (said (p.publication a))).1

/-- How a client follows the settings that it was built from. -/
structure Follows (c : Client P M) (s : Settings) (ofEndpoint : Endpoint → P) (peer : Option P)
    (medium : Option M) : Prop where
  settings : c.settings = s
  /-- It posts to the peer that was handed in, or else to the endpoint that is described. -/
  peer : c.correlator.peer = peer.getD (ofEndpoint ⟨s.server, s.tlsCert.isSome⟩)
  mode : c.mode = .async ↔ medium.isSome
  /-- Requests await their answers on the medium that was handed in, as long as the settings say, -/
  answers : ∀ m, medium = some m → ∃ timeout, s.timeout = some timeout ∧
    c.correlator.answers = some ⟨m, timeout, s.policy⟩
  /-- and answers are published on the same medium. -/
  publisher : c.publisher = medium.map fun m => ⟨m, s.keys⟩
  /-- Both use the keys of the settings. -/
  awaited : ∀ (op : Operation) (r : Request op),
    c.requestKey r = s.keys.key op.requestTag r.base.transactionID
  answered : ∀ p, c.publisher = some p → ∀ (op : Operation) (a : Answer op),
    (p.publication a).key = s.keys.key op.requestTag a.base.transactionID
  /-- Without a medium, and only then, publishing is refused as a matter of the mode. -/
  refused : ∀ (op : Operation) (a : Answer op) said,
    (∃ message, c.published a said = .error (.invalidMode message)) ↔ c.mode = .sync

theorem published_eq_invalidMode {op : Operation} {c : Client P M} {a : Answer op}
    {said : Publication → Except Failure Unit} :
    (∃ message, c.published a said = .error (.invalidMode message)) ↔ c.publisher = none := by
  unfold published publisherOrFail
  cases c.publisher with
  | none => exact iff_of_true ⟨_, rfl⟩ rfl
  | some p =>
    refine iff_of_false ?_ nofun
    rintro ⟨message, h⟩
    dsimp only at h
    generalize said (p.publication a) = r at h
    cases r with
    | ok u => cases h
    | error f => cases f <;> cases h

theorem described_follows (h : s.IsConsistent peer medium) :
    (described s ofEndpoint peer medium : Client P M).Follows s ofEndpoint peer medium := by
  have hroute : ∀ m, medium = some m → ∃ timeout, s.timeout = some timeout ∧
      routeOf s medium = some ⟨m, timeout, s.policy⟩ := by
    rintro m rfl
    obtain ⟨timeout, htimeout⟩ := Option.isSome_iff_exists.mp (h.answers.mp rfl)
    refine ⟨timeout, htimeout, ?_⟩
    rw [routeOf, htimeout]
    rfl
  have hpublisher :
      (described s ofEndpoint peer medium).publisher = medium.map fun m => ⟨m, s.keys⟩ := by
    cases medium with
    | none => rfl
    | some m =>
      obtain ⟨timeout, -, hm⟩ := hroute m rfl
      rw [described, hm]
      rfl
  have hmode : (described s ofEndpoint peer medium).mode = .async ↔ medium.isSome := by
    cases medium with
    | none => exact iff_of_false nofun nofun
    | some m =>
      obtain ⟨timeout, -, hm⟩ := hroute m rfl
      refine iff_of_true ?_ rfl
      rw [mode, Correlator.mode, described, hm]
      rfl
  refine ⟨rfl, rfl, hmode, hroute, hpublisher, fun op r => rfl, ?_, fun op a said => ?_⟩
  · intro p hp op a
    rw [hpublisher] at hp
    obtain ⟨m, -, rfl⟩ := Option.map_eq_some_iff.mp hp
    rfl
  · rw [published_eq_invalidMode, hpublisher, Option.map_eq_none_iff]
    constructor
    · rintro rfl
      rfl
    · intro hsync
      by_contra hsome
      rw [hmode.mpr (Option.isSome_iff_ne_none.mpr hsome)] at hsync
      cases hsync

end Client

/-- Settings whose files are accepted lead to a client if they are consistent, and to the first flaw
otherwise. The client does as they say. -/
theorem consistent_settings_are_accepted {P M : Type} {files : Files} {s : Settings}
    (hfiles : s.FilesAccepted files) (ofEndpoint : Endpoint → P) (peer : Option P)
    (medium : Option M) :
    ((∃ c, (Client.build files s ofEndpoint peer medium).1 = .ok c) ↔ s.IsConsistent peer medium) ∧
      (∀ f, (Client.build files s ofEndpoint peer medium).1 = .error f ↔
        ∃ flaw : Flaw, flaw.IsFirst s peer medium ∧ f = flaw.failure) ∧
      ∀ c, (Client.build files s ofEndpoint peer medium).1 = .ok c →
        c.Follows s ofEndpoint peer medium := by
  refine ⟨Client.exists_build_iff hfiles, fun f => Client.build_error_iff hfiles, fun c hc => ?_⟩
  have hconsistent := (Client.exists_build_iff hfiles).mp ⟨c, hc⟩
  rw [Client.build_of_isConsistent hfiles hconsistent] at hc
  obtain rfl := Except.ok.inj hc
  exact Client.described_follows hconsistent

/-- Settings of a client whose answers come over a medium. -/
def soundSettings : Settings where
  sender := "000001"
  receiver := "000002"
  timeout := some (.ofMillis 1000)

/-- Settings without a server, with half an identity and a longest wait without a medium. -/
def flawedSettings : Settings where
  sender := "000001"
  receiver := "000002"
  tlsKey := some "key.pem"
  timeout := some ⟨0⟩

theorem flawed_settings_report_the_server :
    (∃ c : Client String String,
        (Client.build [] soundSettings Endpoint.server (some "peer") (some "hub")).1 = .ok c ∧
        c.Follows soundSettings Endpoint.server (some "peer") (some "hub")) ∧
      (Client.build (M := String) [] flawedSettings Endpoint.server none none).1 =
        .error (.missingConfig "server") := by
  have hsound : soundSettings.FilesAccepted [] := ⟨nofun, nofun⟩
  have hflawed : flawedSettings.FilesAccepted [] := ⟨nofun, nofun⟩
  obtain ⟨haccepted, -, hfollows⟩ := consistent_settings_are_accepted hsound Endpoint.server
    (some "peer") (some "hub")
  obtain ⟨-, hreported, -⟩ := consistent_settings_are_accepted (M := String) hflawed Endpoint.server
    none none
  constructor
  · have hconsistent : soundSettings.IsConsistent (some "peer") (some "hub") :=
      ⟨by decide, by decide, .inl ⟨rfl, rfl, rfl, rfl, rfl⟩, iff_of_true rfl rfl, by decide⟩
    obtain ⟨c, hc⟩ := haccepted.mpr hconsistent
    exact ⟨c, hc, hfollows c hc⟩
  · refine (hreported _).mpr ⟨.noServer, ⟨⟨rfl, rfl⟩, fun g hg => ?_⟩, rfl⟩
    cases g with
    | noSender => exact show flawedSettings.sender ≠ "" by decide
    | noReceiver => exact show flawedSettings.receiver ≠ "" by decide
    | besidePeer => exact nofun
    | noServer | halfIdentity | noTimeout | zeroTimeout | idleTimeout => exact absurd hg (by decide)

end Roaming
