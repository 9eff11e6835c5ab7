import Roaming.Proofs.Settling

/-!
# The books of a tenure

Every turn of a tenure is a deal about its calls (`Tenure.deal_turn`), as long as the agent has
taken what it executes and a subscriber who waits has a call of its own to wait for. Every turn
keeps that up as well.
-/

set_option autoImplicit false
set_option relaxedAutoImplicit false

namespace Roaming.Redis

namespace Link

variable {l : Link}

theorem commands_send (h : l.isStopped = false) (command : Command) :
    (l.send command).commands = l.commands ++ [command] := by
  unfold send
  rw [h, if_neg Bool.false_ne_true]
  split
  · next hroom =>
    have hempty : l.blocked = [] := by
      simp only [hasRoom, Bool.and_eq_true, List.isEmpty_iff] at hroom
      exact hroom.2
    simp only [commands, hempty, List.append_nil, List.append_assoc]
  · simp only [commands, List.append_assoc]

theorem send_of_stopped (h : l.isStopped = true) (command : Command) :
    l.send command = { l with
      outcomes := l.outcomes ++
        (command.abandoned "actor command channel closed: channel closed") } := by
  rw [send, if_pos h]

theorem commands_retire (channel : Key) (l : Link) :
    (l.retire channel).commands = l.commands ∨
      l.isStopped = false ∧ (l.retire channel).commands = l.commands ++ [.unsubscribe channel] := by
  unfold retire
  split
  · next hroom =>
    simp only [Bool.and_eq_true, Bool.not_eq_true'] at hroom
    refine .inr ⟨hroom.1, ?_⟩
    have hsend := commands_send hroom.1 (.unsubscribe channel)
    rw [send, hroom.1, if_neg Bool.false_ne_true, if_pos hroom.2] at hsend
    exact hsend
  · exact .inl rfl

theorem nextCall_retire (channel : Key) (l : Link) : (l.retire channel).nextCall = l.nextCall := by
  unfold retire
  split <;> rfl

theorem commands_refill (l : Link) : l.refill.commands = l.commands := by
  rw [commands, commands, List.append_assoc, queue_refill, agent_refill, List.append_assoc]

theorem commands_of_idle (h : l.agent = .idle) : l.commands = l.queue ++ l.blocked := by
  rw [commands, h]
  rfl

theorem commands_draw {command : Command} {rest : List Command} (hidle : l.agent = .idle)
    (hq : l.queue = command :: rest) (hcommand : ∀ call, command ≠ .close call) :
    l.draw.commands = l.commands := by
  rw [draw_cons hidle hq hcommand, commands_take, commands_of_idle hidle, hq, List.cons_append]

theorem outcomes_draw {command : Command} {rest : List Command} (hidle : l.agent = .idle)
    (hq : l.queue = command :: rest) (hcommand : ∀ call, command ≠ .close call) :
    l.draw.outcomes = l.outcomes := by
  rw [draw_cons hidle hq hcommand]
  exact outcomes_refill { l with queue := rest }

theorem mem_commands_withdraw {call : CallId} {c : Command} (hc : c ∈ (l.withdraw call).commands) :
    c ∈ l.commands := by
  simp only [commands, withdraw, List.mem_append, List.mem_filter] at hc ⊢
  exact hc.imp_right And.left

theorem mem_commands_of_withdraw {call : CallId} {c : Command} (hc : c ∈ l.commands)
    (hcall : c.call? ≠ some call) : c ∈ (l.withdraw call).commands := by
  simp only [commands, withdraw, List.mem_append, List.mem_filter] at hc ⊢
  exact hc.imp_right fun hmem => ⟨hmem, decide_eq_true hcall⟩

theorem exists_outcome? {call : CallId} {r : Except Failure Unit} (h : (call, r) ∈ l.outcomes) :
    ∃ r', l.outcome? call = some r' := by
  cases ho : l.outcome? call with
  | some r' => exact ⟨r', rfl⟩
  | none =>
    have hne := List.lookup_eq_none_iff.mp ho _ h
    simp at hne

end Link

namespace System

variable {s : System}

theorem act_streamEnd_of_stays (h : s.departure .streamEnd = none) : s.act .streamEnd = s := by
  simp only [act]
  split
  · next hidle hstream =>
    simp only [departure, hidle, hstream, List.isEmpty_nil, if_true] at h
    cases h
  · rfl

theorem act_desert_of_stays (h : s.departure .desert = none) : s.act .desert = s := by
  simp only [act, Link.desert]
  split
  · next hnobody =>
    split
    · next hdeserted =>
      have hidle : s.link.agent = .idle := by
        simp only [Link.isDeserted, Bool.and_eq_true, beq_iff_eq] at hdeserted
        exact hdeserted.2
      simp only [departure, hidle, hnobody, hdeserted, List.isEmpty_nil, Bool.and_self,
        if_true] at h
      cases h
    · rfl
  · rfl

end System

namespace Tenure

/-- The book that a tenure keeps. -/
def book (s : Tenure) : Book where
  commands := s.system.link.commands
  outcomes := s.system.link.outcomes
  calls := s.calls
  taken := s.taken
  phase := s.phase
  hasTask := s.hasTask

/-- What is true of the agent of a tenure at all times. -/
structure Staffed (s : Tenure) : Prop where
  counts : s.calls.length = s.system.link.nextCall
  busy : ∀ c, s.system.link.agent = .executing c →
    s.phase = .serving ∧ c ∈ s.taken ∧ ∀ k, c ≠ .close k
  stopped : s.system.link.isStopped = s.phase.isDropped

variable {s : Tenure}

/-- A command that is handed in waits for the agent, or is refused for good. -/
theorem Staffed.deal_handed (h : s.Staffed) {command : Command} {system : System}
    {calls : List Call} (hcall : command.call? = some s.system.link.nextCall)
    (hcommands : system.link.commands = (s.system.link.send command).commands)
    (houtcomes : system.link.outcomes = (s.system.link.send command).outcomes)
    (hcalls : calls = s.calls ++ [⟨command, .waiting⟩]) :
    s.book.Deal { s with system, calls : Tenure }.book := by
  have hcall' : command.call? = some s.book.calls.length :=
    hcall.trans (congrArg some h.counts.symm)
  have hbook : ∀ {commands : List Command} {outcomes : List (CallId × Except Failure Unit)},
      (s.system.link.send command).commands = commands →
      (s.system.link.send command).outcomes = outcomes →
      { s with system, calls : Tenure }.book =
        { s.book with commands, outcomes, calls := s.book.calls ++ [⟨command, .waiting⟩] } := by
    intro commands outcomes hc ho
    simp only [book, hcommands, houtcomes, hc, ho, hcalls]
  cases hrun : s.system.link.isStopped with
  | false =>
    rw [hbook (Link.commands_send hrun command) (Link.outcomes_send hrun command)]
    exact .hands command hcall' (h.stopped.symm.trans hrun)
  | true =>
    have hsend := Link.send_of_stopped hrun command
    rw [hbook (congrArg Link.commands hsend) (congrArg Link.outcomes hsend)]
    exact .refuses command hcall' (h.stopped.symm.trans hrun) _

/-- What is true at all times of the subscribers who wait for an outcome. -/
structure Attended (s : Tenure) : Prop where
  waits : ∀ u ∈ s.system.subscribers, ∀ call, u.hold = .waiting call →
    s.calls[call]? = some ⟨.subscribe call u.channel, .waiting⟩
  alone : ∀ u ∈ s.system.subscribers, ∀ v ∈ s.system.subscribers, ∀ call,
    u.hold = .waiting call → v.hold = .waiting call → u.id = v.id
  served : ∀ (call k : CallId) (channel : Key),
    s.calls[call]? = some ⟨.subscribe k channel, .waiting⟩ →
      ∃ id, ⟨id, channel, .waiting call⟩ ∈ s.system.subscribers

/-- Calls that stay as they are. -/
private theorem deal_same {t : System} {taken : List Command} {calls : List Call}
    (hcommands : t.link.commands = s.system.link.commands)
    (houtcomes : t.link.outcomes = s.system.link.outcomes) (hcalls : calls = s.calls)
    (htaken : taken = s.taken) :
    s.book.Deal { s with system := t, calls, taken : Tenure }.book := by
  have hbook : { s with system := t, calls, taken : Tenure }.book = s.book := by
    simp only [book, hcommands, houtcomes, hcalls, htaken]
  rw [hbook]
  exact .nothing

theorem Staffed.deal_meanwhile (h : s.Staffed) (hattended : s.Attended) {a : Act}
    (ha : a.isAgents = false) :
    s.book.Deal (s.meanwhile a).book := by
  have hsame : s.system.settled a = none → s.system.handed a = [] →
      (s.system.act a).link.commands = s.system.link.commands →
      (s.system.act a).link.outcomes = s.system.link.outcomes →
      s.book.Deal (s.meanwhile a).book := by
    intro hsettled hhanded hcommands houtcomes
    unfold meanwhile
    rw [hsettled, hhanded]
    exact deal_same hcommands houtcomes (List.append_nil _) rfl
  cases a with
  | register channel =>
    refine hsame rfl rfl ?_ ?_ <;> simp only [System.act] <;> split <;> rfl
  | request id =>
    cases hu : s.system.subscriber? id with
    | none =>
      refine hsame rfl ?_ ?_ ?_ <;> simp only [System.act, System.handed, hu]
    | some u =>
      obtain ⟨i, channel, hold⟩ := u
      cases hold with
      | registered =>
        simp only [meanwhile, System.act, System.settled, System.handed, hu]
        exact h.deal_handed rfl rfl rfl rfl
      | _ => refine hsame rfl ?_ ?_ ?_ <;> simp only [System.act, System.handed, hu]
  | resume id =>
    cases hu : s.system.subscriber? id with
    | none => refine hsame ?_ rfl ?_ ?_ <;> simp only [System.act, System.settled, hu]
    | some u =>
      obtain ⟨i, channel, hold⟩ := u
      cases hold with
      | waiting call =>
        have hwaits := hattended.waits _ (System.mem_of_subscriber? hu) call rfl
        cases ho : s.system.link.outcome? call with
        | none =>
          refine hsame ?_ rfl ?_ ?_ <;> simp [System.act, System.settled, hu, ho]
        | some r =>
          have hdeal := Book.Deal.fetches (b := s.book) call _ r hwaits (Link.mem_of_outcome? ho)
            (by simp)
          cases r <;> simp only [meanwhile, System.act, System.settled, System.handed, hu, ho,
            Option.map_some, List.map_nil, List.append_nil] <;> exact hdeal
      | _ => refine hsame ?_ rfl ?_ ?_ <;> simp only [System.act, System.settled, hu]
  | giveUp id =>
    cases hu : s.system.subscriber? id with
    | none => refine hsame ?_ rfl ?_ ?_ <;> simp only [System.act, System.settled, hu]
    | some u =>
      obtain ⟨i, channel, hold⟩ := u
      cases hold with
      | waiting call =>
        simp only [meanwhile, System.act, System.settled, System.handed, hu, List.map_nil,
          List.append_nil]
        exact .leaves call _ (fun c => Link.mem_commands_withdraw) fun c =>
          Link.mem_commands_of_withdraw
      | registered =>
        refine hsame ?_ rfl ?_ ?_ <;> simp only [System.act, System.settled, hu] <;> rfl
      | _ => refine hsame ?_ rfl ?_ ?_ <;> simp only [System.act, System.settled, hu]
  | strike id =>
    refine hsame rfl rfl ?_ ?_ <;> simp only [System.act] <;> split <;>
      first | rfl | (split <;> rfl)
  | retire id =>
    cases hu : s.system.subscriber? id with
    | none => refine hsame rfl rfl ?_ ?_ <;> simp only [System.act, hu]
    | some u =>
      obtain ⟨i, channel, hold⟩ := u
      cases hold with
      | leaving last =>
        cases last with
        | false => refine hsame rfl rfl ?_ ?_ <;> simp only [System.act, hu] <;> rfl
        | true =>
          have hlink : (s.system.act (.retire id)).link = s.system.link.retire channel := by
            simp only [System.act, hu, if_true]
          rcases Link.commands_retire channel s.system.link with hc | ⟨hrun, hc⟩
          · exact hsame rfl rfl (hlink ▸ hc) (hlink ▸ Link.outcomes_retire channel _)
          · have hbook : (s.meanwhile (.retire id)).book =
                { s.book with commands := s.book.commands ++ [.unsubscribe channel] } := by
              simp only [book, meanwhile, settle, System.settled, System.handed, hlink, hc,
                Link.outcomes_retire, List.map_nil, List.append_nil]
            rw [hbook]
            exact .retires channel (h.stopped.symm.trans hrun)
      | _ => refine hsame rfl rfl ?_ ?_ <;> simp only [System.act, hu]
  | receive id =>
    refine hsame rfl rfl ?_ ?_ <;> simp only [System.act] <;> split <;> rfl
  | publish channel payload =>
    by_cases hheld : s.system.link.isHeld = true
    · simp only [meanwhile, System.act, System.settled, System.handed, hheld, if_true]
      exact h.deal_handed rfl rfl rfl rfl
    · refine hsame rfl ?_ ?_ ?_ <;> simp only [System.act, System.handed, if_neg hheld]
  | close =>
    by_cases hheld : s.system.link.isHeld = true
    · simp only [meanwhile, System.act, System.settled, System.handed, hheld, if_true]
      exact h.deal_handed rfl rfl rfl rfl
    · refine hsame rfl ?_ ?_ ?_ <;> simp only [System.act, System.handed, if_neg hheld]
  | letGo => exact hsame rfl rfl rfl rfl
  | serve r applied =>
    refine hsame rfl rfl ?_ ?_ <;> simp only [System.act] <;> split <;>
      first | rfl | (split <;> rfl)
  | speak pub => exact hsame rfl rfl rfl rfl
  | draw | send | conclude | deliver | streamEnd | desert => cases ha

private theorem deal_of_departure {a : Act} {t : System} (hserving : s.phase = .serving)
    (hleft : s.system.departure a = some t) :
    s.book.Deal
      { s with
        system := t
        taken := s.taken ++ s.system.taken a
        phase := .leaving : Tenure }.book := by
  obtain ⟨hidle, ⟨call, rest, rfl, hq, rfl⟩ | ⟨hend, rfl⟩⟩ := System.departure_eq_some hleft
  · have hc : s.book.commands = .close call :: (rest ++ s.system.link.blocked) := by
      rw [book, Link.commands_of_idle hidle, hq, List.cons_append]
    have htaken : s.system.taken .draw = [.close call] := by simp only [System.taken, hidle, hq]
    have hdeal := Book.Deal.quits call _ hc hserving
    rw [htaken]
    simpa only [book, Link.commands, hidle, Agent.commands, List.nil_append] using hdeal
  · have htaken : s.system.taken a = [] := by
      rcases hend with ⟨rfl, -⟩ | ⟨rfl, -⟩ <;> rfl
    have hdeal := Book.Deal.ends (b := s.book) hserving
    simpa only [book, htaken, List.append_nil] using hdeal

private theorem deal_draw (hserving : s.phase = .serving)
    (hstays : s.system.departure .draw = none) :
    s.book.Deal
      { s with
        system := s.system.act .draw, taken := s.taken ++ s.system.taken .draw : Tenure }.book := by
  cases hagent : s.system.link.agent with
  | idle =>
    cases hq : s.system.link.queue with
    | nil =>
      refine deal_same ?_ ?_ rfl ?_ <;> simp only [System.act, System.taken, hagent, hq, if_true,
        Link.draw_nil, List.append_nil]
    | cons command rest =>
      have hcommand : ∀ k, command ≠ .close k := by
        rintro k rfl
        simp only [System.departure, hagent, hq] at hstays
        cases hstays
      have hc : s.book.commands = command :: (rest ++ s.system.link.blocked) := by
        rw [book, Link.commands_of_idle hagent, hq, List.cons_append]
      have hdeal := Book.Deal.takes command _ hc hcommand hserving
      simpa only [book, System.act, hagent, if_true, Link.commands_draw hagent hq hcommand,
        Link.outcomes_draw hagent hq hcommand, System.taken, hq] using hdeal
  | _ => refine deal_same ?_ ?_ rfl ?_ <;> simp [System.act, System.taken, hagent]

private theorem deal_send :
    s.book.Deal { s with system := s.system.act .send, taken := s.taken ++ [] : Tenure }.book := by
  have hchange := s.system.act_change .send
  generalize s.system.act .send = t at hchange
  cases hchange with
  | still => exact deal_same rfl rfl rfl (List.append_nil _)
  | sends => exact deal_same rfl rfl rfl (List.append_nil _)
  | skips channel hagent hservice hwanted =>
    have hc : s.book.commands =
        .unsubscribe channel :: (s.system.link.queue ++ s.system.link.blocked) := by
      rw [book, Link.commands, hagent]
      rfl
    have hdeal := Book.Deal.skips channel _ hc
    simpa only [book, Link.commands, Agent.commands, List.nil_append, List.append_nil] using hdeal
  | rests a ha | ends a ha => rcases ha with he | he <;> cases he

private theorem Staffed.deal_conclude (h : s.Staffed) :
    s.book.Deal
      { s with system := s.system.act .conclude, taken := s.taken ++ [] : Tenure }.book := by
  have hchange := s.system.act_change .conclude
  generalize s.system.act .conclude = t at hchange
  cases hchange with
  | still => exact deal_same rfl rfl rfl (List.append_nil _)
  | rests => exact deal_same rfl rfl rfl (List.append_nil _)
  | concludes command hagent r hservice =>
    obtain ⟨-, htaken, hcommand⟩ := h.busy command hagent
    have hc : s.book.commands = command :: (s.system.link.queue ++ s.system.link.blocked) := by
      rw [book, Link.commands, hagent]
      rfl
    have hdeal := Book.Deal.concludes command _ hc hcommand htaken r
    simpa only [book, Link.commands, Agent.commands, List.nil_append, List.append_nil] using hdeal
  | ends a ha => rcases ha with he | he <;> cases he

private theorem Staffed.deal_stays (h : s.Staffed) {a : Act} (ha : a.isAgents = true)
    (hserving : s.phase = .serving) (hstays : s.system.departure a = none) :
    s.book.Deal
      { s with system := s.system.act a, taken := s.taken ++ s.system.taken a : Tenure }.book := by
  cases a with
  | draw => exact deal_draw hserving hstays
  | send => exact deal_send
  | conclude => exact h.deal_conclude
  | deliver =>
    refine deal_same ?_ ?_ rfl (List.append_nil _) <;> simp only [System.act] <;> split <;> rfl
  | streamEnd =>
    rw [System.act_streamEnd_of_stays hstays]
    exact deal_same rfl rfl rfl (List.append_nil _)
  | desert =>
    rw [System.act_desert_of_stays hstays]
    exact deal_same rfl rfl rfl (List.append_nil _)
  | register | request | resume | giveUp | strike | retire | receive | publish | close | letGo
  | serve | speak => cases ha

theorem Staffed.commands_eq (h : s.Staffed) (hphase : s.phase ≠ .serving) :
    s.system.link.commands = s.system.link.queue ++ s.system.link.blocked := by
  cases hagent : s.system.link.agent with
  | executing command => exact absurd (h.busy command hagent).1 hphase
  | _ => rw [Link.commands, hagent]; rfl

theorem Staffed.deal_turn (h : s.Staffed) (hattended : s.Attended) (e : Turn) :
    s.book.Deal (s.turn e).book := by
  have hchange := s.turn_change e
  generalize s.turn e = t at hchange
  cases hchange with
  | still => exact .nothing
  | departs a t ha hserving hleft => exact deal_of_departure hserving hleft
  | serves a ha hserving hstays => exact h.deal_stays ha hserving hstays
  | others a ha => exact h.deal_meanwhile hattended ha
  | letsIn => exact deal_same (Link.commands_refill _) (Link.outcomes_refill _) rfl rfl
  | clears hphase => exact .clears hphase
  | drops hphase =>
    have hc : s.book.commands = _ := h.commands_eq (by simp [hphase])
    exact .drops _ _ hc _ _
  | finishes hphase => exact .finishes hphase
  | fetches call k channel payload r hx ho =>
    exact .fetches call _ r hx (Link.mem_of_outcome? ho) (by simp)
  | hears call k r hx ho => exact .hears call k r hx (Link.mem_of_outcome? ho)
  | claims call k hx => exact .claims call k hx
  | joins call k hx hphase => exact .joins call k hx hphase
  | leaves call command progress hx hcommand =>
    exact .leaves call _ (fun c => Link.mem_commands_withdraw) fun c =>
      Link.mem_commands_of_withdraw

end Tenure

/-! ### The agent of a tenure -/

namespace System

variable {s : System} {a : Act}

theorem departure_of_others (ha : a.isAgents = false) : s.departure a = none := by
  cases a with
  | draw | send | conclude | deliver | streamEnd | desert => cases ha
  | _ => rfl

theorem taken_of_others (ha : a.isAgents = false) : s.taken a = [] := by
  cases a with
  | draw | send | conclude | deliver | streamEnd | desert => cases ha
  | _ => rfl

theorem handed_of_agents (ha : a.isAgents = true) : s.handed a = [] := by
  cases a with
  | draw | send | conclude | deliver | streamEnd | desert => rfl
  | _ => cases ha

private theorem nextCall_of_change {t : System} (hchange : s.Change a t)
    (hrequest : ∀ id, a ≠ .request id) (hpublish : ∀ channel payload, a ≠ .publish channel payload)
    (hclose : a ≠ .close) : t.link.nextCall = s.link.nextCall := by
  cases hchange with
  | requests id => exact absurd rfl (hrequest id)
  | publishes channel payload => exact absurd rfl (hpublish channel payload)
  | closes => exact absurd rfl hclose
  | retires id channel last hu =>
    cases last with
    | true => exact Link.nextCall_retire channel s.link
    | false => rfl
  | takes command rest => exact Link.nextCall_refill { s.link with queue := rest }
  | _ => rfl

/-- A number is used for each command that is handed in. -/
theorem nextCall_act (s : System) (a : Act) :
    (s.act a).link.nextCall = s.link.nextCall + (s.handed a).length := by
  have hsame : s.handed a = [] → (s.act a).link.nextCall = s.link.nextCall →
      (s.act a).link.nextCall = s.link.nextCall + (s.handed a).length := by
    intro hhanded hnext
    rw [hhanded]
    exact hnext
  cases a with
  | request id =>
    cases hu : s.subscriber? id with
    | none => refine hsame ?_ ?_ <;> simp only [handed, act, hu]
    | some u =>
      obtain ⟨i, channel, hold⟩ := u
      cases hold with
      | registered => simp only [handed, act, hu, Link.request, List.length_singleton]
      | _ => refine hsame ?_ ?_ <;> simp only [handed, act, hu]
  | publish channel payload =>
    by_cases hheld : s.link.isHeld = true
    · simp only [handed, act, if_pos hheld, Link.publish, List.length_singleton]
    · refine hsame ?_ ?_ <;> simp only [handed, act, if_neg hheld]
  | close =>
    by_cases hheld : s.link.isHeld = true
    · simp only [handed, act, if_pos hheld, Link.close, List.length_singleton]
    · refine hsame ?_ ?_ <;> simp only [handed, act, if_neg hheld]
  | _ => exact hsame rfl (nextCall_of_change (s.act_change _) (by simp) (by simp) (by simp))

/-- The agent is busy with what it was busy with, or with what it has just taken. -/
theorem executing_of_act {c : Command} (h : (s.act a).link.agent = .executing c) :
    s.link.agent = .executing c ∨ s.taken a = [c] ∧ ∀ k, c ≠ .close k := by
  have hchange := s.act_change a
  generalize s.act a = t at hchange h
  cases hchange with
  | requests | publishes | closes => exact .inl ((Link.agent_send _ _).symm.trans h)
  | retires id channel last hu =>
    cases last with
    | true => exact .inl ((Link.agent_retire channel _).symm.trans h)
    | false => exact .inl h
  | takes command rest hidle hq hcommand =>
    cases h
    refine .inr ⟨?_, hcommand⟩
    simp only [taken, hidle, hq]
  | quits | skips | concludes | ends => cases h
  | _ => exact .inl h

/-- An agent that does not leave, does not stop. -/
theorem isStopped_act (hstays : s.departure a = none) :
    (s.act a).link.isStopped = s.link.isStopped := by
  by_cases hend : a = .streamEnd ∨ a = .desert
  · rcases hend with rfl | rfl
    · rw [act_streamEnd_of_stays hstays]
    · rw [act_desert_of_stays hstays]
  · have hchange := s.act_change a
    generalize s.act a = t at hchange
    cases hchange with
    | requests | publishes | closes => exact Link.isStopped_send _ _
    | retires id channel last hu =>
      cases last with
      | true => exact Link.isStopped_retire channel _
      | false => rfl
    | takes command rest hidle | concludes command hidle | skips channel hidle =>
      simp [Link.isStopped, hidle]
    | quits call rest hidle hq =>
      simp only [departure, hidle, hq] at hstays
      cases hstays
    | ends a ha => exact absurd ha hend
    | _ => rfl

end System

namespace Tenure

variable {s : Tenure}

private theorem Staffed.meanwhile (h : s.Staffed) {a : Act} (ha : a.isAgents = false) :
    (s.meanwhile a).Staffed where
  counts := by
    simp only [Tenure.meanwhile, System.nextCall_act, List.length_append, List.length_map,
      length_settle, h.counts]
  busy c hagent := by
    rcases System.executing_of_act hagent with hagent | ⟨htaken, -⟩
    · exact h.busy c hagent
    · rw [System.taken_of_others ha] at htaken
      cases htaken
  stopped := (System.isStopped_act (System.departure_of_others ha)).trans h.stopped

private theorem Staffed.departs (h : s.Staffed) {a : Act} {t : System}
    (hleft : s.system.departure a = some t) {taken : List Command} :
    Staffed { s with system := t, taken, phase := .leaving } := by
  obtain ⟨hidle, hcases⟩ := System.departure_eq_some hleft
  have hsame : t.link.agent = .idle ∧ t.link.nextCall = s.system.link.nextCall := by
    obtain ⟨call, rest, -, -, rfl⟩ | ⟨-, rfl⟩ := hcases <;> exact ⟨hidle, rfl⟩
  refine ⟨h.counts.trans hsame.2.symm, fun c hagent => ?_, ?_⟩
  · cases hsame.1.symm.trans hagent
  · exact congrArg (· == Agent.stopped) hsame.1

private theorem Staffed.stays (h : s.Staffed) {a : Act} (ha : a.isAgents = true)
    (hserving : s.phase = .serving) (hstays : s.system.departure a = none) :
    Staffed { s with system := s.system.act a, taken := s.taken ++ s.system.taken a } := by
  refine ⟨?_, fun c hagent => ⟨hserving, ?_⟩, (System.isStopped_act hstays).trans h.stopped⟩
  · rw [System.nextCall_act, System.handed_of_agents ha]
    exact h.counts
  · rcases System.executing_of_act hagent with hagent | ⟨htaken, hcommand⟩
    · obtain ⟨-, hold, hcommand⟩ := h.busy c hagent
      exact ⟨List.mem_append_left _ hold, hcommand⟩
    · rw [htaken]
      exact ⟨List.mem_append_right _ (List.mem_singleton_self c), hcommand⟩

theorem Staffed.turn (h : s.Staffed) (e : Turn) : (s.turn e).Staffed := by
  have hsame : ∀ {t : Tenure}, t.calls.length = s.calls.length →
      t.system.link.nextCall = s.system.link.nextCall → t.system.link.agent = s.system.link.agent →
      t.phase = s.phase → t.taken = s.taken → t.Staffed := by
    intro t hlength hnext hagent hphase htaken
    refine ⟨by rw [hlength, hnext, h.counts], fun c hc => ?_, ?_⟩
    · rw [hphase, htaken]
      exact h.busy c (hagent.symm.trans hc)
    · rw [hphase, ← h.stopped]
      exact congrArg (· == Agent.stopped) hagent
  -- An agent that has left its loop is not busy.
  have hquiet : ∀ {t : Tenure}, s.phase ≠ .serving → t.calls = s.calls →
      t.system.link.nextCall = s.system.link.nextCall → t.system.link.agent = s.system.link.agent →
      s.phase.isDropped = t.phase.isDropped → t.Staffed := by
    intro t hphase hcalls hnext hagent hdropped
    refine ⟨by rw [hcalls, hnext, h.counts], fun c hc => ?_, ?_⟩
    · exact absurd (h.busy c (hagent.symm.trans hc)).1 hphase
    · rw [← hdropped, ← h.stopped]
      exact congrArg (· == Agent.stopped) hagent
  have hchange := s.turn_change e
  generalize s.turn e = t at hchange
  cases hchange with
  | still => exact h
  | departs a t ha hserving hleft => exact h.departs hleft
  | serves a ha hserving hstays => exact h.stays ha hserving hstays
  | others a ha => exact h.meanwhile ha
  | letsIn => exact hsame rfl (Link.nextCall_refill _) (Link.agent_refill _) rfl rfl
  | clears hphase => exact hquiet (by simp [hphase]) rfl rfl rfl (hphase ▸ rfl)
  | drops hphase => exact ⟨h.counts, fun c hc => (by cases hc), rfl⟩
  | finishes hphase => exact hquiet (by simp [hphase]) rfl rfl rfl (hphase ▸ rfl)
  | fetches | hears | claims | joins | leaves => exact hsame (length_moved _ _ _) rfl rfl rfl rfl

theorem opening_staffed : opening.Staffed where
  counts := rfl
  busy c hagent := by cases hagent
  stopped := rfl

end Tenure

end Roaming.Redis
