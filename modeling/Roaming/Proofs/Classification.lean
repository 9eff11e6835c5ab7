import Roaming.Proofs.Answers

/-!
# What a request makes of its answer

The bytes that come for a request are the oldest payload in the inbox of its listener or, in sync
mode, the body of the response. In both modes the request ends with the same outcome for the same
bytes, and what that is can be told in cases (`Judged`), of which the first that fits counts.
-/

set_option autoImplicit false
set_option relaxedAutoImplicit false

namespace Roaming

open Roaming.Text (Bytes utf8)
open Roaming.Json

/-- How a request with a transaction id ends for which these bytes come as its answer. -/
inductive Judged (op : Operation) (key : Key) (id : TransactionId) (bytes : Bytes) :
    Simulation.Outcome → Prop where
  | unreadable (refusal : Refusal) (h : Answer.decode op bytes = .error refusal) :
      Judged op key id bytes (.failed (.serialization refusal))
  | foreign (a : Answer op) (h : Answer.decode op bytes = .ok a)
      (hid : a.base.transactionID ≠ id) :
      Judged op key id bytes (.failed (.invalidResponse
        s!"{key}: answer carries transaction id {a.base.transactionID.toNat}"))
  | mistagged (a : Answer op) (tag : Tag) (h : Answer.decode op bytes = .ok a)
      (hid : a.base.transactionID = id) (htag : a.base.messageType = some tag)
      (hne : tag ≠ op.answerTag) :
      Judged op key id bytes (.failed (.invalidResponse
        s!"{key}: expected {op.answerTag.name}, got {tag.name}"))
  | declined (a : Answer op) (h : Answer.decode op bytes = .ok a) (hfor : a.IsFor id)
      (hcode : a.result.code ≠ .success) :
      Judged op key id bytes (.failed (.application a.result.code a.result.description))
  | accepted (a : Answer op) (h : Answer.decode op bytes = .ok a) (hfor : a.IsFor id)
      (hcode : a.result.code = .success) : Judged op key id bytes (.accepted op a)

variable {op : Operation} {key : Key} {id : TransactionId} {bytes : Bytes}

/-- The outcome that a request takes from what it accepts. -/
private def concluded (op : Operation) : Except Failure (Answer op) → Simulation.Outcome
  | .ok a => .accepted op a
  | .error f => .failed f

private theorem Judged.eq_concluded {o : Simulation.Outcome} (h : Judged op key id bytes o) :
    o = concluded op (Answer.accept op key id bytes) := by
  have haccept : ∀ {a : Answer op}, a.IsFor id →
      a.base.messageType.filter (· ≠ op.answerTag) = none := by
    intro a hfor
    rcases hfor.type with htype | htype
    · rw [htype]
      rfl
    · rw [htype]
      simp
  cases h with
  | unreadable refusal h => simp only [Answer.accept, h, concluded]
  | foreign a h hid => simp only [Answer.accept, h, if_pos hid, concluded]
  | mistagged a tag h hid htag hne =>
    have hfilter : a.base.messageType.filter (· ≠ op.answerTag) = some tag := by
      rw [htag]
      simp [hne]
    simp only [Answer.accept, h, if_neg (not_not.mpr hid), hfilter, concluded]
  | declined a h hfor hcode =>
    have hfailure : a.result.code.isSuccess = false := by simpa [ResultCode.isSuccess] using hcode
    simp only [Answer.accept, h, if_neg (not_not.mpr hfor.transaction), haccept hfor, hfailure,
      Bool.false_eq_true, if_false, concluded]
  | accepted a h hfor hcode =>
    have hsuccess : a.result.code.isSuccess = true := by simpa [ResultCode.isSuccess] using hcode
    simp only [Answer.accept, h, if_neg (not_not.mpr hfor.transaction), haccept hfor, hsuccess,
      if_true, concluded]

private theorem judged_concluded (op : Operation) (key : Key) (id : TransactionId) (bytes : Bytes) :
    Judged op key id bytes (concluded op (Answer.accept op key id bytes)) := by
  have hcases : ∃ o, Judged op key id bytes o := by
    cases hread : Answer.decode op bytes with
    | error refusal => exact ⟨_, .unreadable refusal hread⟩
    | ok a =>
      by_cases hid : a.base.transactionID = id
      · by_cases htype : ∃ tag, a.base.messageType = some tag ∧ tag ≠ op.answerTag
        · obtain ⟨tag, htag, hne⟩ := htype
          exact ⟨_, .mistagged a tag hread hid htag hne⟩
        · have hfor : a.IsFor id := by
            refine ⟨hid, ?_⟩
            cases htag : a.base.messageType with
            | none => exact .inl rfl
            | some tag =>
              right
              by_contra hne
              exact htype ⟨tag, htag, fun he => hne (by rw [he])⟩
          by_cases hcode : a.result.code = .success
          · exact ⟨_, .accepted a hread hfor hcode⟩
          · exact ⟨_, .declined a hread hfor hcode⟩
      · exact ⟨_, .foreign a hread hid⟩
  obtain ⟨o, h⟩ := hcases
  rwa [h.eq_concluded] at h

/-- Bytes amount to one outcome. -/
theorem Judged.unique {o o' : Simulation.Outcome} (h : Judged op key id bytes o)
    (h' : Judged op key id bytes o') : o = o' := by
  rw [h.eq_concluded, h'.eq_concluded]

/-- A request comes to this outcome. -/
theorem judged_outcome (actor : Simulation.Actor) (r : Request op) (bytes : Bytes) :
    Judged op (actor.requestKey r) r.base.transactionID bytes
      ((Simulation.Job.request actor op r).outcome (.ok bytes)) := by
  have h := judged_concluded op (actor.requestKey r) r.base.transactionID bytes
  simp only [Simulation.Job.outcome]
  cases haccept : Answer.accept op (actor.requestKey r) r.base.transactionID bytes with
  | ok a => rwa [haccept] at h
  | error f => rwa [haccept] at h

/-- Only an answer that is the request's own and reports success is accepted. -/
theorem Judged.of_accepted {op' : Operation} {a : Answer op'}
    (h : Judged op key id bytes (.accepted op' a)) :
    op' = op ∧ a.IsFor id ∧ a.result.code = .success := by
  cases h with
  | accepted a h hfor hcode => exact ⟨rfl, hfor, hcode⟩

/-! ### Answers without a result block -/

/-- What is picked from a message is picked from its entries. -/
private theorem readMessage_ok {α : Type} {title : String} {withResult : Bool}
    {pick : Entries → Except Cause α} {v : α} {rest : Bytes}
    (h : readMessage title withResult pick bytes = .ok (v, rest)) :
    ∃ e, readMessage title withResult .ok bytes = .ok (e, rest) ∧ pick e = .ok v := by
  unfold readMessage at h ⊢
  split at h
  · rename_i text hblanks
    cases hread : readEntries withResult (maxDepth - 1) (rounds text) true none text with
    | error fault =>
      rw [hread] at h
      cases h
    | ok p =>
      obtain ⟨e, left⟩ := p
      rw [hread] at h
      cases hpick : pick e with
      | error c =>
        simp only [bind, Except.bind, hpick] at h
        cases h
      | ok w =>
        simp only [bind, Except.bind, pure, Except.pure, enclosed, hpick] at h ⊢
        cases hleave : leaveObject left with
        | error fault =>
          rw [hleave] at h
          cases h
        | ok more =>
          rw [hleave] at h
          cases h
          exact ⟨e, rfl, hpick⟩
  · exact absurd h (refuse_ne_ok _ _ _)

/-- An answer is read from the entries of its message. -/
theorem Answer.entries_of_decode {a : Answer op} (h : Answer.decode op bytes = .ok a) :
    ∃ e, document (readMessage "AnswerPayload" true .ok) bytes = .ok e ∧
      Answer.ofEntries op e = .ok a := by
  unfold Answer.decode document at h
  cases hread : readMessage "AnswerPayload" true (ofEntries op) bytes with
  | error fault =>
    rw [hread] at h
    cases h
  | ok p =>
    obtain ⟨e, he, hof⟩ := readMessage_ok hread
    rw [hread] at h
    dsimp only at h
    cases hend : finish p.2 with
    | error fault =>
      rw [hend] at h
      cases h
    | ok u =>
      rw [hend] at h
      cases h
      refine ⟨e, ?_, hof⟩
      rw [document, he]
      dsimp only
      rw [hend]

/-- A message without a result block is no answer that succeeds. -/
theorem Judged.of_no_result {e : Entries} {o : Simulation.Outcome} (h : Judged op key id bytes o)
    (he : document (readMessage "AnswerPayload" true .ok) bytes = .ok e) (hnone : e.result = none) :
    o = .failed (.application (.other "") "") ∨ (∃ refusal, o = .failed (.serialization refusal)) ∨
      ∃ message, o = .failed (.invalidResponse message) := by
  have hmissing : ∀ a : Answer op, Answer.decode op bytes = .ok a → a.result = .missing := by
    intro a ha
    obtain ⟨e', he', hof⟩ := Answer.entries_of_decode ha
    obtain rfl := Except.ok.inj (he.symm.trans he')
    unfold Answer.ofEntries at hof
    cases hbase : Base.schema.ofMembers e.members with
    | error c =>
      rw [hbase] at hof
      cases hof
    | ok base =>
      rw [hbase] at hof
      cases hbody : op.answerTag.body.ofMembers e.members with
      | error c =>
        simp only [bind, Except.bind, hbody] at hof
        cases hof
      | ok body =>
        simp only [bind, Except.bind, hbody, pure, Except.pure, hnone] at hof
        cases hof
        rfl
  cases h with
  | unreadable refusal h => exact .inr (.inl ⟨_, rfl⟩)
  | foreign a h hid => exact .inr (.inr ⟨_, rfl⟩)
  | mistagged a tag h hid htag hne => exact .inr (.inr ⟨_, rfl⟩)
  | declined a h hfor hcode =>
    left
    rw [hmissing a h]
    rfl
  | accepted a h hfor hcode =>
    rw [hmissing a h] at hcode
    cases hcode

end Roaming

namespace Roaming.Simulation

open Roaming.Text (Bytes utf8)
open Roaming.Json

/-- Whether bytes have come for a task as the answer of its exchange: the oldest payload in its
inbox, or in sync mode the body of the response, of whatever status. -/
inductive World.Hands (w : World) (t : Task) (bytes : Bytes) : Prop where
  | payload (v : Vigil) (hst : t.stage = .watching v)
      (hsight : w.sight v.subscription = .message bytes)
  | response (courier : WorkId) (status : Nat) (hst : t.stage = .awaiting courier)
      (hend : w.ending? courier = some (.answered ⟨status, bytes⟩))

/-- How a look of a task in sync mode ends that finds this. -/
def Job.replied (job : Job) (sent : Option Ending) (cancellation : Cancellation) : List Outcome :=
  match sent with
  | some ending => [job.outcome (ending.outcome.map (·.body))]
  | none => if cancellation = .done then [.failed .cancelled] else []

namespace Scene

variable {s : Scene}

/-- A look in sync mode finds the end of the POST before it finds that the caller has given up. -/
theorem Sound.look_sync (h : s.Sound) {t : Task} (ht : t ∈ s.world.tasks) {courier : WorkId}
    (hst : t.stage = .awaiting courier) (hd : (t.isDropped && !t.isBusy) = false) :
    (s.act (.move (.task t.id))).world.outcomes t.id =
      t.job.replied (s.world.ending? courier) t.cancellation := by
  obtain ⟨rs, hrs, -⟩ := stage_eq s (.move (.task t.id))
  have hnone := h.outcomes_of_mem ht
  have hplace := h.tidy.inPlace t ht
  rw [Task.InPlace, hst] at hplace
  obtain ⟨e, he, -⟩ := hplace
  have hstage : (s.world.takeUp (.task t.id)) = { s.world with ready := rs } := hrs
  have htask : World.task? t.id { s.world with ready := rs } = some t := h.seated.task?_eq ht
  have hmove : (s.act (.move (.task t.id))).world =
      World.lookSync t e.key courier { s.world with ready := rs } := by
    change (s.world.takeUp (.task t.id)).moveTask t.id = _
    rw [hstage, World.moveTask, htask]
    simp only [hd, hst, he, Bool.false_eq_true, if_false]
  have hfinish : ∀ log o,
      (World.finish t o (World.report log { s.world with ready := rs })).outcomes t.id = [o] := by
    intro log o
    have hmore : (World.finish t o (World.report log { s.world with ready := rs })).ended =
        s.world.ended ++ [⟨t.id, t.name, o⟩] := rfl
    rw [World.outcomes_more hmore, hnone, if_pos rfl, List.nil_append]
  have hsent : World.ending? courier { s.world with ready := rs } = s.world.ending? courier := rfl
  rw [hmove]
  simp only [World.lookSync, Reply.poll, hsent, Job.replied]
  cases s.world.ending? courier with
  | some ending =>
    dsimp only
    cases ending.outcome with
    | ok response => exact hfinish _ _
    | error f => exact hfinish _ _
  | none =>
    dsimp only
    by_cases hcancel : t.cancellation = .done
    · simp only [hcancel, beq_self_eq_true, if_true]
      exact (hfinish _ _).trans rfl
    · have hgoing : (t.cancellation == .done) = false := by simpa using hcancel
      simp only [hgoing, hcancel, Bool.false_eq_true, if_false]
      exact hnone

/-- The bytes that have come for a task are what its next look ends with. -/
theorem Sound.look_of_hands (h : s.Sound) {t : Task} (ht : t ∈ s.world.tasks) {bytes : Bytes}
    (hands : s.world.Hands t bytes) (hd : (t.isDropped && !t.isBusy) = false) :
    (s.act (.move (.task t.id))).world.outcomes t.id = [t.job.outcome (.ok bytes)] := by
  cases hands with
  | payload v hst hsight =>
    refine ((h.endsByVerdict ht hst).ends hd (.ok bytes) ?_).1
    exact Watch.verdict_eq_ok.mpr hsight
  | response courier status hst hend =>
    rw [h.look_sync ht hst hd, hend]
    rfl

/-- A task that is not to be cleared away ends with bytes only if they have come for it. -/
private theorem leaves_exchange (h : s.Sound) {t : Task} (ht : t ∈ s.world.tasks) {e : Errand}
    (he : t.job.errand? = some e) {pubs : List Publication} {o : Outcome} {a : Act}
    (hl : Leaves (s.stage a) t pubs (some o)) :
    (∃ bytes, s.world.Hands t bytes ∧ o = t.job.outcome (.ok bytes)) ∨
      ∃ f, o = .failed f ∧ ∀ bytes, ¬ s.world.Hands t bytes := by
  obtain ⟨rs, hrs, -⟩ := stage_eq s a
  have hsent : ∀ courier, (s.stage a).ending? courier = s.world.ending? courier := by
    rw [hrs]
    exact fun _ => rfl
  have hnot : ∀ bytes, s.world.Hands t bytes → (∃ v, t.stage = .watching v) ∨
      ∃ courier, t.stage = .awaiting courier := by
    rintro bytes (⟨v, hst, -⟩ | ⟨courier, status, hst, -⟩)
    · exact .inl ⟨v, hst⟩
    · exact .inr ⟨courier, hst⟩
  have hfail : (∀ v, t.stage ≠ .watching v) → (∀ courier, t.stage ≠ .awaiting courier) →
      ∀ bytes, ¬ s.world.Hands t bytes := by
    intro hv hc bytes hands
    rcases hnot bytes hands with ⟨v, hst⟩ | ⟨courier, hst⟩
    · exact hv v hst
    · exact hc courier hst
  cases hl with
  | refused refusal hst hjob => simp [hjob, Job.errand?] at he
  | pushed actor op answer p ending hjob hp hend => simp [hjob, Job.errand?] at he
  | unarmed e route name script f hst he hroute hmedium hf =>
    exact .inr ⟨f, rfl, hfail (by simp [hst]) (by simp [hst])⟩
  | unconfirmed e route i call listener f hst he ho =>
    exact .inr ⟨f, rfl, hfail (by simp [hst]) (by simp [hst])⟩
  | decided v r hst hpoll =>
    rw [view_stage] at hpoll
    obtain ⟨-, e', route, -, -, c, -, -, -, htracks⟩ := h.tidy.watching ht hst
    have hverdict : v.watch.verdict (s.world.view t v) = some r :=
      (Watch.poll_spec (v := s.world.view t v) htracks).1.symm.trans hpoll
    cases r with
    | ok bytes => exact .inl ⟨bytes, .payload v hst (Watch.verdict_eq_ok.mp hverdict), rfl⟩
    | error f =>
      refine .inr ⟨f, rfl, ?_⟩
      rintro bytes (⟨v', hst', hsight⟩ | ⟨courier, status, hst', -⟩)
      · cases hst.symm.trans hst'
        have hok : v.watch.verdict (s.world.view t v) = some (.ok bytes) :=
          Watch.verdict_eq_ok.mpr hsight
        rw [hverdict] at hok
        cases hok
      · cases hst.symm.trans hst'
  | answered e courier r hst he hr =>
    rw [World.replied, hsent] at hr
    have hfinds : ∀ {bytes}, s.world.Hands t bytes →
        ∃ status, s.world.ending? courier = some (.answered ⟨status, bytes⟩) := by
      rintro bytes (⟨v, hst', -⟩ | ⟨courier', status, hst', hend⟩)
      · cases hst.symm.trans hst'
      · cases hst.symm.trans hst'
        exact ⟨status, hend⟩
    unfold Reply.poll at hr
    cases hend : s.world.ending? courier with
    | none =>
      have hno : ∀ bytes, ¬ s.world.Hands t bytes := by
        intro bytes hands
        obtain ⟨status, hsome⟩ := hfinds hands
        rw [hend] at hsome
        cases hsome
      rw [hend] at hr
      dsimp only at hr
      split at hr
      · cases hr
        exact .inr ⟨_, rfl, hno⟩
      · cases hr
    | some ending =>
      rw [hend] at hr
      cases ending with
      | answered response =>
        cases hr
        exact .inl ⟨response.body, .response courier response.status hst hend, rfl⟩
      | failed f =>
        cases hr
        refine .inr ⟨f, rfl, fun bytes hands => ?_⟩
        obtain ⟨status, hsome⟩ := hfinds hands
        rw [hend] at hsome
        cases hsome
      | crashed text =>
        cases hr
        refine .inr ⟨_, rfl, fun bytes hands => ?_⟩
        obtain ⟨status, hsome⟩ := hfinds hands
        rw [hend] at hsome
        cases hsome

/-! ### One act -/

/-- Bytes that have come stay until the next look, whatever else happens. Of a broker's listeners
this is not said here. -/
private theorem Sound.hands_act (h : s.Sound) {t : Task} (ht : t ∈ s.world.tasks) {bytes : Bytes}
    (hands : s.world.Hands t bytes)
    (hplace : ∀ v i key l, t.stage = .watching v → v.subscription ≠ .link i key l)
    {a : Act} (ha : a ≠ .move (.task t.id)) (hdrop : a ≠ .drop t.id) :
    ∃ u ∈ (s.act a).world.tasks, u.id = t.id ∧ u.job = t.job ∧ u.stage = t.stage ∧
      u.isDropped = t.isDropped ∧ (s.act a).world.Hands u bytes := by
  have hkept : ∃ u ∈ (s.act a).world.tasks, u.id = t.id ∧ u.job = t.job ∧ u.stage = t.stage ∧
      u.isDropped = t.isDropped := by
    cases h.leaving ht a with
    | leaves pubs o ha' hd hl hgone ho => exact absurd ha' ha
    | cleared ha' hd hgone ho => exact absurd ha' ha
    | stays u W hfate hW hu ho =>
      refine ⟨u, hu, hfate.id_eq, hfate.job_eq.2, ?_⟩
      cases hfate with
      | kept hne => exact ⟨rfl, rfl⟩
      | cancelled ha' => exact ⟨rfl, rfl⟩
      | dropped ha' => exact absurd ha' hdrop
      | still ha' hd hidle hW => exact absurd ha' ha
      | moved ha' hd stage isBusy gain hm hW => exact absurd ha' ha
  obtain ⟨u, hu, hid, hjob, hstage, hdropped⟩ := hkept
  refine ⟨u, hu, hid, hjob, hstage, hdropped, ?_⟩
  cases hands with
  | payload v hst hsight =>
    refine .payload v (hstage.trans hst) ?_
    cases hsub : v.subscription with
    | link i key l => exact absurd hsub (hplace v i key l hst)
    | puppet name key script =>
      rw [hsub] at hsight
      exact hsight
    | hub key l =>
      rw [hsub] at hsight
      have hown : ∀ {x : Task}, x.stage = .watching v → x.subscription? = some (.hub key l) := by
        intro x hx
        rw [Task.subscription?, hx]
        exact congrArg some hsub
      have hheld : s.Has (.task t.id) (.hub key l) := ⟨t, ht, rfl, hown hst⟩
      have hheld' : (s.act a).Has (.task t.id) (.hub key l) := ⟨u, hu, hid, hown (hstage.trans hst)⟩
      obtain ⟨more, hmore⟩ := h.seated.prefix_act hheld hheld' (a := a) (by simp)
      obtain ⟨rest, hinbox⟩ := Listeners.sight_eq_message.mp hsight
      rw [hinbox] at hmore
      exact Listeners.sight_eq_message.mpr ⟨rest ++ more, hmore.symm⟩
  | response courier status hst hend =>
    refine .response courier status (hstage.trans hst) ?_
    have hplace' := h.tidy.inPlace t ht
    rw [Task.InPlace, hst] at hplace'
    obtain ⟨e, -, -, c, hc, rfl, -⟩ := hplace'
    have htidy' := (h.act a).tidy
    rw [h.tidy.ending?_eq hc] at hend
    rcases h.courier_fate hc a with ⟨hc', -⟩ | ⟨-, hc'⟩
    · rw [htidy'.ending?_eq hc', hend]
    · rw [(World.advanced_of_ended (by rw [hend]; rfl)).1] at hc'
      rw [htidy'.ending?_eq hc', hend]

/-! ### All acts -/

private theorem Sound.judges (h : s.Sound) {t : Task} (ht : t ∈ s.world.tasks) {op : Operation}
    {actor : Actor} {r : Request op} (hjob : t.job = .request actor op r) {bytes : Bytes}
    (hands : s.world.Hands t bytes) (hd : (t.isDropped && !t.isBusy) = false) :
    ∃ o, (s.act (.move (.task t.id))).world.outcomes t.id = [o] ∧
      Judged op (actor.requestKey r) r.base.transactionID bytes o := by
  refine ⟨_, h.look_of_hands ht hands hd, ?_⟩
  rw [hjob]
  exact judged_outcome actor r bytes

/-- Whoever has come to an outcome is gone. -/
private theorem Sound.gone_of_outcome (h : s.Sound) {id : WorkId} {o : Outcome}
    (ho : s.world.outcomes id = [o]) : ∀ u ∈ s.world.tasks, u.id ≠ id := by
  rintro u hu rfl
  rw [h.outcomes_of_mem hu] at ho
  cases ho

private theorem Sound.stays_judged (h : s.Sound) {t : Task} (ht : t ∈ s.world.tasks)
    {op : Operation} {actor : Actor} {r : Request op} (hjob : t.job = .request actor op r)
    {bytes : Bytes} (hands : s.world.Hands t bytes)
    (hplace : ∀ v i key l, t.stage = .watching v → v.subscription ≠ .link i key l)
    (hd : t.isDropped = false) {acts : List Act} (hdrop : .drop t.id ∉ acts)
    (hmove : .move (.task t.id) ∈ acts) :
    ∃ o, (s.after acts).world.outcomes t.id = [o] ∧
      Judged op (actor.requestKey r) r.base.transactionID bytes o := by
  induction acts generalizing s t with
  | nil => cases hmove
  | cons a acts ih =>
    by_cases ha : a = .move (.task t.id)
    · subst ha
      obtain ⟨o, ho, hjudged⟩ := h.judges ht hjob hands (by rw [hd]; rfl)
      have hgone := (h.act _).gone_of_outcome ho
      refine ⟨o, ?_, hjudged⟩
      rw [after_cons, ((h.act _).gone_after (h.lt_nextId ht _) hgone acts).2, ho]
    · have hdrop' : a ≠ .drop t.id := fun he => hdrop (he ▸ List.mem_cons_self)
      obtain ⟨u, hu, hid, hujob, hstage, hud, hands'⟩ := h.hands_act ht hands hplace ha hdrop'
      have hlater := ih (h.act a) hu (hujob.trans hjob) hands' (by rwa [hstage]) (hud.trans hd)
        (by rw [hid]; exact fun hmem => hdrop (List.mem_cons_of_mem _ hmem))
        (by rw [hid]; exact (List.mem_cons.mp hmove).resolve_left (Ne.symm ha))
      rw [hid] at hlater
      exact hlater

/-- A task that exchanges has come to its outcome at a look. -/
private theorem Sound.ended_at_look (h : s.Sound) {t : Task} (ht : t ∈ s.world.tasks) {e : Errand}
    (he : t.job.errand? = some e) {acts : List Act} {o : Outcome}
    (ho : (s.after acts).world.outcomes t.id = [o]) : ∃ earlier later u,
      acts = earlier ++ .move (.task t.id) :: later ∧ u ∈ (s.after earlier).world.tasks ∧
      u.id = t.id ∧ u.job = t.job ∧
      ((∃ bytes, (s.after earlier).world.Hands u bytes ∧ o = t.job.outcome (.ok bytes)) ∨
        ∃ f, o = .failed f ∧ ∀ bytes, ¬ (s.after earlier).world.Hands u bytes) := by
  obtain ⟨earlier, later, u, pubs, hsplit, hu, hid, hjob, hl⟩ := h.left_at ht ho
  have hcases := leaves_exchange (h.after earlier) hu (by rw [hjob]; exact he) hl
  rw [hjob] at hcases
  exact ⟨earlier, later, u, hsplit, hu, hid, hjob, hcases⟩

/-- How a request that is under way comes to its outcome. -/
structure Classifies (s : Scene) (t : Task) {op : Operation} (actor : Actor) (r : Request op) :
    Prop where
  /-- What has come for it when it looks is what it ends with, in either mode. -/
  judged : (t.isDropped && !t.isBusy) = false → ∀ bytes, s.world.Hands t bytes →
    ∃ o, (s.act (.move (.task t.id))).world.outcomes t.id = [o] ∧
      Judged op (actor.requestKey r) r.base.transactionID bytes o
  /-- The look that ends it has found bytes and judged them, or none and failed. -/
  ended : ∀ acts o, (s.after acts).world.outcomes t.id = [o] → ∃ earlier later u,
    acts = earlier ++ .move (.task t.id) :: later ∧ u ∈ (s.after earlier).world.tasks ∧
      u.id = t.id ∧ u.job = t.job ∧
      ((∃ bytes, (s.after earlier).world.Hands u bytes ∧
          Judged op (actor.requestKey r) r.base.transactionID bytes o) ∨
        ∃ f, o = .failed f ∧ ∀ bytes, ¬ (s.after earlier).world.Hands u bytes)
  /-- It is accepted with an answer of its own that reports success, and only so. -/
  accepted : ∀ acts op' (a : Answer op'), (s.after acts).world.outcomes t.id = [.accepted op' a] →
    op' = op ∧ a.IsFor r.base.transactionID ∧ a.result.code = .success
  /-- In sync mode the end of the POST counts before the caller's giving up. -/
  sync : ∀ courier, t.stage = .awaiting courier → (t.isDropped && !t.isBusy) = false →
    (s.act (.move (.task t.id))).world.outcomes t.id =
      t.job.replied (s.world.ending? courier) t.cancellation
  /-- What has come stays until it looks, be it cancelled or out of time meanwhile. -/
  stays : t.isDropped = false → ∀ bytes, s.world.Hands t bytes →
    (∀ v i key l, t.stage = .watching v → v.subscription ≠ .link i key l) →
    ∀ acts, .drop t.id ∉ acts → .move (.task t.id) ∈ acts →
    ∃ o, (s.after acts).world.outcomes t.id = [o] ∧
      Judged op (actor.requestKey r) r.base.transactionID bytes o
  /-- Over the hub, the first that is published on its key after it is registered is its answer. -/
  first : ∀ route name, t.stage = .fresh → actor.correlator.answers = some route →
    route.medium = .hub name → t.isDropped = false →
    ∀ acts bytes rest, .close ∉ acts → .drop t.id ∉ acts →
    payloadsOn (actor.requestKey r) ((s.act (.move (.task t.id))).published acts) = bytes :: rest →
    (∃ u ∈ ((s.act (.move (.task t.id))).after acts).world.tasks, u.id = t.id) →
    ∃ o, ((s.act (.move (.task t.id))).after acts).EndsWith t o ∧
      Judged op (actor.requestKey r) r.base.transactionID bytes o

theorem Sound.classifies (h : s.Sound) {t : Task} (ht : t ∈ s.world.tasks) {op : Operation}
    {actor : Actor} {r : Request op} (hjob : t.job = .request actor op r) :
    s.Classifies t actor r := by
  have he : t.job.errand? = some ⟨actor.correlator, actor.requestKey r, actor.requestBody r⟩ := by
    rw [hjob]
    rfl
  have hended : ∀ acts o, (s.after acts).world.outcomes t.id = [o] → ∃ earlier later u,
      acts = earlier ++ .move (.task t.id) :: later ∧ u ∈ (s.after earlier).world.tasks ∧
        u.id = t.id ∧ u.job = t.job ∧
        ((∃ bytes, (s.after earlier).world.Hands u bytes ∧
            Judged op (actor.requestKey r) r.base.transactionID bytes o) ∨
          ∃ f, o = .failed f ∧ ∀ bytes, ¬ (s.after earlier).world.Hands u bytes) := by
    intro acts o ho
    obtain ⟨earlier, later, u, hsplit, hu, hid, hsame, hcases⟩ := h.ended_at_look ht he ho
    refine ⟨earlier, later, u, hsplit, hu, hid, hsame, hcases.imp_left ?_⟩
    rintro ⟨bytes, hands, rfl⟩
    refine ⟨bytes, hands, ?_⟩
    rw [hjob]
    exact judged_outcome actor r bytes
  refine ⟨fun hd bytes hands => h.judges ht hjob hands hd, hended, ?_,
    fun courier hst hd => h.look_sync ht hst hd, ?_, ?_⟩
  · intro acts op' a ho
    obtain ⟨earlier, later, u, -, -, -, -, ⟨bytes, -, hjudged⟩ | ⟨f, hf, -⟩⟩ := hended acts _ ho
    · exact hjudged.of_accepted
    · cases hf
  · intro hd bytes hands hplace acts hdrop hmove
    exact h.stays_judged ht hjob hands hplace hd hdrop hmove
  · intro route name hst hroute hmedium hd acts bytes rest hclose hdrop hfirst hthere
    obtain ⟨l, ht', hon, hinbox⟩ := h.begins_on_hub ht hst he hroute hmedium (by rw [hd]; rfl)
    have hkeeps := (h.act _).keepsFirst (h.lt_nextId ht _)
      (fun acts u hu hid => h.job_after ht (.move (.task t.id) :: acts) u hu hid)
      ⟨_, ht', rfl, l, rfl, hon, hinbox⟩
    have hkept := (hkeeps.keeps acts [] bytes rest hclose hfirst hthere).1
    have hundropped : s.Undropped t.id := by
      intro u hu hid
      rw [h.seated.task_unique hu ht hid]
      exact hd
    have hlater := h.undropped_after (h.seated.ids_lt t ht) hundropped (.move (.task t.id) :: acts)
      (by simpa using hdrop)
    refine ⟨_, ((h.act _).after acts).endsWith hkept hlater, ?_⟩
    rw [hjob]
    exact judged_outcome actor r bytes

/-- In every reachable scene and in both modes, a request ends with what the bytes amount to
that have come for it; an answer without a result block is none that succeeds; and the mode
has no part in it. -/
theorem answers_are_classified (hs : s.IsOpening) (before : List Act) {t : Task} {op : Operation}
    {actor : Actor} {r : Request op} (ht : t ∈ (s.after before).world.tasks)
    (hjob : t.job = .request actor op r) :
    (s.after before).Classifies t actor r ∧
      (∀ bytes o, Judged op (actor.requestKey r) r.base.transactionID bytes o →
        ∀ e, document (readMessage "AnswerPayload" true .ok) bytes = .ok e → e.result = none →
          o = .failed (.application (.other "") "") ∨
          (∃ refusal, o = .failed (.serialization refusal)) ∨
            ∃ message, o = .failed (.invalidResponse message)) ∧
      ∀ s' : Scene, s'.IsOpening → ∀ before', ∀ t' ∈ (s'.after before').world.tasks,
        ∀ (actor' : Actor) (r' : Request op), t'.job = .request actor' op r' →
        actor'.requestKey r' = actor.requestKey r → r'.base.transactionID = r.base.transactionID →
        (t.isDropped && !t.isBusy) = false → (t'.isDropped && !t'.isBusy) = false →
        ∀ bytes, (s.after before).world.Hands t bytes → (s'.after before').world.Hands t' bytes →
          ((s'.after before').act (.move (.task t'.id))).world.outcomes t'.id =
            ((s.after before).act (.move (.task t.id))).world.outcomes t.id := by
  have hclassifies := (hs.sound_after before).classifies ht hjob
  refine ⟨hclassifies, fun bytes o hjudged e he hnone => hjudged.of_no_result he hnone, ?_⟩
  intro s' hs' before' t' ht' actor' r' hjob' hkey hid hd hd' bytes hands hands'
  obtain ⟨o, ho, hjudged⟩ := hclassifies.judged hd bytes hands
  obtain ⟨o', ho', hjudged'⟩ :=
    ((hs'.sound_after before').classifies ht' hjob').judged hd' bytes hands'
  rw [hkey, hid] at hjudged'
  rw [ho, ho', hjudged.unique hjudged']

/-- The client of `roamingClient` in sync mode. -/
def syncClient : Actor where
  settings := roamingSettings
  correlator := ⟨0, none⟩
  publisher := none

/-- The answer to `homeRequest` when it has lost its result block. -/
def bareAnswer : Bytes :=
  utf8 (Value.object ((homeAnswer 7).base.toRow.values ++ (homeAnswer 7).body.values)).print

/-- A peer that is not well, and says so. -/
def unwellPeer : Peer where
  name := none
  react _ _ := { ending := .answered ⟨503, bareAnswer⟩ }

/-- The answer is the body of a response that has come just before the caller gives up; and it is
the first payload of a request in async mode. -/
theorem bare_answer_fails_in_both_modes :
    let sync := (opening [unwellPeer]).after [.start "t0"
      (.request syncClient .homeNS homeRequest) .armed, .move (.task 0), .move (.post 1),
      .move (.post 1), .cancel 0]
    let async := (opening [silentPeer]).after [.start "t0"
      (.request (roamingClient "c0") .homeNS homeRequest) .armed, .move (.task 0), .move (.task 0),
      .publish ((roamingClient "c0").requestKey homeRequest) bareAnswer]
    (sync.act (.move (.task 0))).world.outcomes 0 = [.failed (.application (.other "") "")] ∧
      (async.act (.move (.task 0))).world.outcomes 0 = [.failed (.application (.other "") "")] := by
  have hsync := answers_are_classified (opening_isOpening [unwellPeer])
    [.start "t0" (.request syncClient .homeNS homeRequest) .armed, .move (.task 0), .move (.post 1),
      .move (.post 1), .cancel 0]
    (t := ⟨0, "t0", .request syncClient .homeNS homeRequest, .done, false, true, .awaiting 1⟩)
    (List.mem_singleton_self _) rfl
  have hasync := answers_are_classified (opening_isOpening [silentPeer])
    [.start "t0" (.request (roamingClient "c0") .homeNS homeRequest) .armed, .move (.task 0),
      .move (.task 0), .publish ((roamingClient "c0").requestKey homeRequest) bareAnswer]
    (List.mem_singleton_self _) rfl
  have hread : Answer.decode .homeNS bareAnswer =
      .ok ⟨(homeAnswer 7).base, .missing, (homeAnswer 7).body⟩ :=
    Answer.decode_of_no_result ⟨trivial, trivial⟩
  have hmissing : Judged .homeNS (syncClient.requestKey homeRequest) 7 bareAnswer
      (.failed (.application (.other "") "")) := .declined _ hread ⟨rfl, .inl rfl⟩ nofun
  obtain ⟨o, ho, hjudged⟩ := hsync.1.judged rfl bareAnswer (.response 1 503 rfl rfl)
  obtain rfl := hjudged.unique hmissing
  obtain ⟨o, ho', hjudged'⟩ := hasync.1.judged rfl bareAnswer (.payload _ rfl rfl)
  obtain rfl := hjudged'.unique hmissing
  exact ⟨ho, ho'⟩

end Scene

end Roaming.Simulation
