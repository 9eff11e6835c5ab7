import Roaming.Exchange

/-!
# What a look at an armed exchange comes to

`Watch.verdict` states without a loop what ends an armed exchange, given everything there is to see.
`Watch.poll` looks again after it has seen the end of the POST; it comes to the verdict all the
same, and once it has seen the end of the POST it never looks at it again.
-/

set_option autoImplicit false
set_option relaxedAutoImplicit false

namespace Roaming

open Roaming.Text (Bytes)

namespace Watch

/-- The failure with which the end of the POST ends an exchange: only a failed POST does, and only
if the policy is not to go on. -/
def sendFailure? (w : Watch) (sent : Option Ending) : Option Failure :=
  match w.policy, sent.map Ending.outcome with
  | .failFast, some (.error f) => some f
  | _, _ => none

/-- What ends an armed exchange, if anything does: the oldest payload, else the closed inbox, else
the failure of the POST, else the end of the time, else the caller's giving up. -/
def verdict (w : Watch) (v : View) : Option (Except Failure Bytes) :=
  match v.inbox with
  | .message payload => some (.ok payload)
  | .closed => some (.error (.transport s!"{w.key}: answer channel closed before delivery"))
  | .empty =>
    match w.sendFailure? v.sent with
    | some f => some (.error f)
    | none =>
      if v.expired then some (.error .asyncTimeout)
      else if v.cancelled then some (.error .cancelled)
      else none

/-- Whether what a watch remembers of its POST is true of it: an end that it has seen is there, and
was none that ends the exchange. -/
def Tracks (w : Watch) (sent : Option Ending) : Prop :=
  w.sendPending = false → sent.isSome ∧ w.sendFailure? sent = none

private theorem acknowledge_cases (w : Watch) (ending : Ending) :
    (∃ f, w.sendFailure? (some ending) = some f ∧ w.acknowledge ending = (.finish (.error f), [])) ∨
      w.sendFailure? (some ending) = none ∧ ∃ log, w.acknowledge ending = (.acknowledged, log) := by
  unfold sendFailure? acknowledge
  cases ho : ending.outcome with
  | ok r => exact .inr ⟨by cases w.policy <;> simp [ho], _, rfl⟩
  | error f =>
    cases hp : w.policy with
    | failFast => exact .inl ⟨f, by simp [ho], rfl⟩
    | awaitAnswer => exact .inr ⟨rfl, _, rfl⟩

/-- A look at a POST whose end is not to be seen any more. -/
private theorem turn_of_not_pending {w : Watch} {v : View}
    (h : w.sendPending = false ∨ v.sent = none) (hf : w.sendFailure? v.sent = none) :
    ∃ log, w.turn v = (match w.verdict v with
      | some outcome => .finish outcome
      | none => .idle, log) := by
  have hgive : v.inbox = .empty → w.turn v = w.giveUp v := by
    intro he
    unfold turn
    rw [he]
    rcases h with hp | hs
    · simp only [hp]
    · cases hp : w.sendPending <;> simp only [hs]
  cases hi : v.inbox with
  | message payload => exact ⟨_, by simp only [turn, verdict, hi, deliver]; rfl⟩
  | closed => exact ⟨[], by simp only [turn, verdict, hi]⟩
  | empty =>
    rw [hgive hi]
    simp only [verdict, hi, hf, giveUp]
    cases v.expired with
    | true => exact ⟨_, rfl⟩
    | false => cases v.cancelled <;> exact ⟨_, rfl⟩

private theorem poll_of_turn_idle {w : Watch} {v : View} {log : Log} (h : w.turn v = (.idle, log)) :
    w.poll v = (w, none, log) := by
  rw [poll]
  split <;> simp_all

private theorem poll_of_turn_finish {w : Watch} {v : View} {log : Log}
    {outcome : Except Failure Bytes} (h : w.turn v = (.finish outcome, log)) :
    w.poll v = (w, some outcome, log) := by
  rw [poll]
  split <;> simp_all

private theorem poll_of_turn_acknowledged {w : Watch} {v : View} {log : Log}
    (h : w.turn v = (.acknowledged, log)) :
    ∃ more, w.poll v =
      (({ w with sendPending := false }.poll v).1, ({ w with sendPending := false }.poll v).2.1,
        more) := by
  rw [poll]
  split <;> simp_all

private theorem poll_of_not_pending {w : Watch} {v : View}
    (h : w.sendPending = false ∨ v.sent = none) (hf : w.sendFailure? v.sent = none) :
    (w.poll v).1 = w ∧ (w.poll v).2.1 = w.verdict v := by
  obtain ⟨log, hturn⟩ := turn_of_not_pending h hf
  cases hv : w.verdict v with
  | none =>
    rw [hv] at hturn
    rw [poll_of_turn_idle hturn]
    exact ⟨rfl, rfl⟩
  | some outcome =>
    rw [hv] at hturn
    rw [poll_of_turn_finish hturn]
    exact ⟨rfl, rfl⟩

/-- A poll comes to the verdict. A watch that goes on is the same but for the end of the POST, which
it has seen if it was there. -/
theorem poll_spec {w : Watch} {v : View} (h : w.Tracks v.sent) :
    (w.poll v).2.1 = w.verdict v ∧
      (w.verdict v = none →
        (w.poll v).1 = { w with sendPending := w.sendPending && v.sent.isNone }) := by
  cases hs : v.sent with
  | none =>
    have hf : w.sendFailure? v.sent = none := by
      rw [hs, sendFailure?]
      cases w.policy <;> rfl
    obtain ⟨h₁, h₂⟩ := poll_of_not_pending (.inr hs) hf
    refine ⟨h₂, fun _ => ?_⟩
    rw [h₁]
    cases w
    simp
  | some ending =>
    cases hp : w.sendPending with
    | false =>
      obtain ⟨h₁, h₂⟩ := poll_of_not_pending (.inl hp) (h hp).2
      refine ⟨h₂, fun _ => ?_⟩
      rw [h₁]
      cases w
      simp_all
    | true =>
      cases hi : v.inbox with
      | message payload =>
        have hturn : w.turn v = w.deliver payload := by simp only [turn, hi]
        rw [poll_of_turn_finish hturn]
        exact ⟨by simp only [verdict, hi], by simp [verdict, hi]⟩
      | closed =>
        have hturn : w.turn v = (.finish (.error (.transport
            s!"{w.key}: answer channel closed before delivery")), []) := by
          simp only [turn, hi]
        rw [poll_of_turn_finish hturn]
        exact ⟨by simp only [verdict, hi], by simp [verdict, hi]⟩
      | empty =>
        have hturn : w.turn v = w.acknowledge ending := by simp only [turn, hi, hp, hs]
        rcases acknowledge_cases w ending with ⟨f, hf, hack⟩ | ⟨hf, log, hack⟩
        · rw [poll_of_turn_finish (hturn.trans hack)]
          exact ⟨by simp only [verdict, hi, hs, hf], by simp [verdict, hi, hs, hf]⟩
        · -- The end of the POST is acknowledged, and everything is looked at once more.
          obtain ⟨more, hpoll⟩ := poll_of_turn_acknowledged (hturn.trans hack)
          have hf' : Watch.sendFailure? { w with sendPending := false } v.sent = none := by
            rw [hs]
            exact hf
          obtain ⟨h₁, h₂⟩ := poll_of_not_pending (.inl rfl) hf'
          rw [hpoll]
          exact ⟨h₂, fun _ => by simpa [hs] using h₁⟩

/-- What a watch that goes on remembers is true. -/
theorem tracks_poll {w : Watch} {v : View} (h : w.Tracks v.sent) (hv : (w.poll v).2.1 = none) :
    (w.poll v).1.Tracks v.sent := by
  obtain ⟨houtcome, hwatch⟩ := poll_spec h
  have hnone : w.verdict v = none := houtcome.symm.trans hv
  have hfailure : w.sendFailure? v.sent = none := by
    cases hi : v.inbox <;> cases hf : w.sendFailure? v.sent <;> simp_all [verdict]
  rw [hwatch hnone]
  intro hpending
  refine ⟨?_, hfailure⟩
  cases hs : v.sent with
  | some ending => rfl
  | none =>
    have hp : w.sendPending = false := by simpa [hs] using hpending
    have hsome := (h hp).1
    rw [hs] at hsome
    exact hsome

/-- An exchange ends well with the oldest payload, and only so. -/
theorem verdict_eq_ok {w : Watch} {v : View} {payload : Bytes} :
    w.verdict v = some (.ok payload) ↔ v.inbox = .message payload := by
  unfold verdict
  cases v.inbox with
  | message p => simp
  | closed => simp
  | empty =>
    dsimp only
    split
    · simp
    · split
      · simp
      · split <;> simp

/-- Whoever gives up is cancelled, unless something else ends the exchange all the same. -/
theorem verdict_of_cancelled {w : Watch} {v : View} (h : v.cancelled = true) :
    w.verdict v = some ((w.verdict { v with cancelled := false }).getD (.error .cancelled)) := by
  unfold verdict
  cases v.inbox with
  | message payload => rfl
  | closed => rfl
  | empty =>
    dsimp only
    cases w.sendFailure? v.sent with
    | some f => rfl
    | none =>
      cases v.expired with
      | true => rfl
      | false =>
        rw [h]
        rfl

/-- Once the end of the POST was seen, nothing hangs on it any more. -/
theorem poll_congr_sent {w : Watch} (h : w.sendPending = false) (v : View) (sent : Option Ending) :
    w.poll { v with sent } = w.poll v := by
  have hturn : w.turn { v with sent } = w.turn v := by
    simp only [turn, h, giveUp]
  cases ht : w.turn v with
  | mk turn log =>
    rw [ht] at hturn
    cases turn with
    | finish outcome => rw [poll_of_turn_finish ht, poll_of_turn_finish hturn]
    | idle => rw [poll_of_turn_idle ht, poll_of_turn_idle hturn]
    | acknowledged =>
      have hpending := sendPending_of_turn ht
      rw [h] at hpending
      exact absurd hpending (by decide)

end Watch

end Roaming
