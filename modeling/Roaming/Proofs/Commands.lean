import Roaming.Proofs.Links

/-!
# Commands of a link

A call hands in one command, which then is in the queue, waits for room in it, or is with the agent,
until the call has an outcome. No step puts an old call on a new command, and an outcome is one that
the command of its call allows (`Link.Onward`): a listener is refused by a failure of the transport,
and nothing else. With what the listeners keep, this is all that is said of a link at work
(`Link.Extends`).
-/

set_option autoImplicit false
set_option relaxedAutoImplicit false

namespace Roaming

namespace Redis

/-- Whether an outcome is one that the call of a command can have. -/
def Command.Allows : Command → Except Failure Unit → Prop
  | _, .ok () => True
  | .publish _ _ _, .error f => ∃ message, f = .publish message
  | .subscribe _ _, .error f => ∃ message, f = .transport message
  | _, .error _ => False

/-- The command that an agent is busy with. -/
def Agent.commands : Agent → List Command
  | .executing command => [command]
  | _ => []

namespace Link

/-- The commands that a link has not done with. -/
def commands (l : Link) : List Command := l.agent.commands ++ l.queue ++ l.blocked

/-- What is true of the calls of a link at all times. -/
structure Orderly (l : Link) : Prop where
  commands_lt : ∀ c ∈ l.commands, ∀ call, c.call? = some call → call < l.nextCall
  outcomes_lt : ∀ o ∈ l.outcomes, o.1 < l.nextCall
  /-- Commands wait for room only while there is none. -/
  full : l.blocked ≠ [] → capacity ≤ l.queue.length

/-- How the calls of a link develop. -/
structure Onward (l l' : Link) : Prop where
  next_le : l.nextCall ≤ l'.nextCall
  commands : ∀ c ∈ l'.commands, c ∈ l.commands ∨
    ∀ call, c.call? = some call → l.nextCall ≤ call ∧ call < l'.nextCall
  outcomes : ∀ o ∈ l'.outcomes, o ∈ l.outcomes ∨
    (∃ c ∈ l.commands, c.call? = some o.1 ∧ c.Allows o.2) ∨
    l.nextCall ≤ o.1 ∧ o.1 < l'.nextCall
  full : (l.blocked ≠ [] → capacity ≤ l.queue.length) →
    l'.blocked ≠ [] → capacity ≤ l'.queue.length

theorem Orderly.onward {l l' : Link} (h : l.Orderly) (hon : l.Onward l') : l'.Orderly := by
  refine ⟨fun c hc call hcall => ?_, fun o ho => ?_, hon.full h.full⟩
  · rcases hon.commands c hc with hold | hnew
    · exact Nat.lt_of_lt_of_le (h.commands_lt c hold call hcall) hon.next_le
    · exact (hnew call hcall).2
  · rcases hon.outcomes o ho with hold | ⟨c, hc, hcall, -⟩ | hnew
    · exact Nat.lt_of_lt_of_le (h.outcomes_lt o hold) hon.next_le
    · exact Nat.lt_of_lt_of_le (h.commands_lt c hc o.1 hcall) hon.next_le
    · exact hnew.2

/-- Listeners have no part in it. -/
theorem Onward.same {l l' : Link} (hagent : l'.agent = l.agent) (hqueue : l'.queue = l.queue)
    (hblocked : l'.blocked = l.blocked) (houtcomes : l'.outcomes = l.outcomes)
    (hnext : l'.nextCall = l.nextCall) : l.Onward l' := by
  have hcommands : l'.commands = l.commands := by
    rw [Link.commands, Link.commands, hagent, hqueue, hblocked]
  refine ⟨Nat.le_of_eq hnext.symm, fun c hc => .inl (hcommands ▸ hc),
    fun o ho => .inl (houtcomes ▸ ho), fun h => ?_⟩
  rw [hblocked, hqueue]
  exact h

theorem Onward.refl (l : Link) : l.Onward l := .same rfl rfl rfl rfl rfl

theorem Onward.trans {l₁ l₂ l₃ : Link} (h : l₁.Onward l₂) (h' : l₂.Onward l₃) : l₁.Onward l₃ := by
  refine ⟨Nat.le_trans h.next_le h'.next_le, fun c hc => ?_, fun o ho => ?_,
    fun hfull => h'.full (h.full hfull)⟩
  · rcases h'.commands c hc with hc | hnew
    · refine (h.commands c hc).imp_right fun hnew call hcall => ?_
      exact ⟨(hnew call hcall).1, Nat.lt_of_lt_of_le (hnew call hcall).2 h'.next_le⟩
    · refine .inr fun call hcall => ?_
      exact ⟨Nat.le_trans h.next_le (hnew call hcall).1, (hnew call hcall).2⟩
  · rcases h'.outcomes o ho with ho | ⟨c, hc, hcall, hallows⟩ | hnew
    · refine (h.outcomes o ho).imp_right fun hnew => hnew.imp_right fun hnew => ?_
      exact ⟨hnew.1, Nat.lt_of_lt_of_le hnew.2 h'.next_le⟩
    · rcases h.commands c hc with hc | hnew
      · exact .inr (.inl ⟨c, hc, hcall, hallows⟩)
      · have hlt := Nat.lt_of_lt_of_le (hnew o.1 hcall).2 h'.next_le
        exact .inr (.inr ⟨(hnew o.1 hcall).1, hlt⟩)
    · exact .inr (.inr ⟨Nat.le_trans h.next_le hnew.1, hnew.2⟩)

/-! ### Single steps -/

theorem agent_send (command : Command) (l : Link) : (l.send command).agent = l.agent := by
  unfold send
  split
  · rfl
  · split <;> rfl

theorem mem_commands_send {command c : Command} {l : Link} (hc : c ∈ (l.send command).commands) :
    c ∈ l.commands ∨ c = command := by
  unfold send at hc
  split at hc
  · exact .inl hc
  · split at hc
    · simp only [commands, List.mem_append, List.mem_singleton] at hc ⊢
      tauto
    · simp only [commands, List.mem_append, List.mem_singleton] at hc ⊢
      tauto

theorem outcomes_send {l : Link} (h : l.isStopped = false) (command : Command) :
    (l.send command).outcomes = l.outcomes := by
  unfold send
  rw [h]
  split
  · contradiction
  · split <;> rfl

/-- An outcome of the broker's silence belongs to the call of the command. -/
theorem call?_of_mem_abandoned {reason : String} {c : Command} {o : CallId × Except Failure Unit}
    (ho : o ∈ Command.abandoned reason c) : c.call? = some o.1 := by
  cases c with
  | unsubscribe channel => cases ho
  | publish call channel payload => rw [List.mem_singleton.mp ho]; rfl
  | subscribe call channel => rw [List.mem_singleton.mp ho]; rfl
  | close call => rw [List.mem_singleton.mp ho]; rfl

theorem call?_of_mem_conclude {r : BrokerReply} {c : Command} {o : CallId × Except Failure Unit}
    (ho : o ∈ (conclude c r).1) : c.call? = some o.1 := by
  cases c with
  | unsubscribe channel => cases r <;> cases ho
  | publish call channel payload => cases r <;> rw [List.mem_singleton.mp ho] <;> rfl
  | subscribe call channel => cases r <;> rw [List.mem_singleton.mp ho] <;> rfl
  | close call => rw [List.mem_singleton.mp ho]; rfl

theorem allows_of_mem_abandoned {reason : String} {c : Command} {o : CallId × Except Failure Unit}
    (ho : o ∈ Command.abandoned reason c) : c.Allows o.2 := by
  cases c with
  | unsubscribe channel => cases ho
  | publish call channel payload => rw [List.mem_singleton.mp ho]; exact ⟨_, rfl⟩
  | subscribe call channel => rw [List.mem_singleton.mp ho]; exact ⟨_, rfl⟩
  | close call => rw [List.mem_singleton.mp ho]; trivial

theorem allows_of_mem_conclude {r : BrokerReply} {c : Command} {o : CallId × Except Failure Unit}
    (ho : o ∈ (conclude c r).1) : c.Allows o.2 := by
  cases c with
  | unsubscribe channel => cases r <;> cases ho
  | publish call channel payload =>
    cases r <;> rw [List.mem_singleton.mp ho]
    · exact ⟨_, rfl⟩
    · trivial
  | subscribe call channel =>
    cases r <;> rw [List.mem_singleton.mp ho]
    · exact ⟨_, rfl⟩
    · trivial
  | close call => rw [List.mem_singleton.mp ho]; trivial

private theorem mem_outcomes_send {command : Command} {l : Link}
    {o : CallId × Except Failure Unit} (ho : o ∈ (l.send command).outcomes) :
    o ∈ l.outcomes ∨ command.call? = some o.1 := by
  unfold send at ho
  split at ho
  · exact (List.mem_append.mp ho).imp_right call?_of_mem_abandoned
  · split at ho
    · exact .inl ho
    · exact .inl ho

private theorem full_send {command : Command} {l : Link}
    (h : l.blocked ≠ [] → capacity ≤ l.queue.length) (hb : (l.send command).blocked ≠ []) :
    capacity ≤ (l.send command).queue.length := by
  revert hb
  unfold send
  split
  · exact h
  · split
    · next hroom =>
      intro hb
      have hempty : l.blocked = [] := by
        simp only [hasRoom, Bool.and_eq_true, List.isEmpty_iff] at hroom
        exact hroom.2
      exact absurd hempty hb
    · next hroom =>
      intro _
      by_cases hblocked : l.blocked = []
      · simp only [hasRoom, hblocked, List.isEmpty_nil, Bool.and_true, decide_eq_true_eq] at hroom
        exact Nat.not_lt.mp hroom
      · exact h hblocked

/-- A call hands in its own command. -/
theorem onward_send {command : Command} {l : Link} (h : command.call? = some l.nextCall) :
    l.Onward { l.send command with nextCall := l.nextCall + 1 } := by
  refine ⟨Nat.le_succ _, fun c hc => ?_, fun o ho => ?_, full_send⟩
  · refine (mem_commands_send hc).imp_right fun he call hcall => ?_
    rw [he, h] at hcall
    cases hcall
    exact ⟨Nat.le_refl _, Nat.lt_succ_self _⟩
  · refine (mem_outcomes_send ho).imp_right fun hcall => .inr ?_
    have heq : l.nextCall = o.1 := Option.some.inj (h.symm.trans hcall)
    exact ⟨Nat.le_of_eq heq, Nat.lt_succ_of_le (Nat.le_of_eq heq.symm)⟩

theorem onward_fetched (call : CallId) (l : Link) : l.Onward (l.fetched call) :=
  ⟨Nat.le_refl _, fun _ => .inl, fun _ ho => .inl (List.mem_filter.mp ho).1, id⟩

theorem queue_refill (l : Link) : l.refill.queue ++ l.refill.blocked = l.queue ++ l.blocked := by
  unfold refill
  split
  · rfl
  · next command rest hblocked =>
    split
    · rw [hblocked, List.append_assoc, List.singleton_append]
    · rfl

theorem outcomes_refill (l : Link) : l.refill.outcomes = l.outcomes := by
  unfold refill
  split
  · rfl
  · split <;> rfl

theorem nextCall_refill (l : Link) : l.refill.nextCall = l.nextCall := by
  unfold refill
  split
  · rfl
  · split <;> rfl

private theorem full_refill {l : Link} (h : l.blocked ≠ [] → capacity ≤ l.queue.length + 1)
    (hb : l.refill.blocked ≠ []) : capacity ≤ l.refill.queue.length := by
  revert hb
  unfold refill
  split
  · next hempty => exact fun hb => absurd hempty hb
  · next command rest hblocked =>
    have hlen := h (by simp [hblocked])
    split
    · intro _
      rw [List.length_append, List.length_singleton]
      exact hlen
    · next hfull => exact fun _ => Nat.not_lt.mp hfull

/-- A command that is let into the queue has waited for room before. -/
theorem onward_refill (l : Link) : l.Onward l.refill := by
  have hcommands : l.refill.commands = l.commands := by
    rw [commands, commands, List.append_assoc, List.append_assoc, queue_refill]
    unfold refill
    split
    · rfl
    · split <;> rfl
  refine ⟨Nat.le_of_eq (nextCall_refill l).symm, fun c hc => .inl (hcommands ▸ hc),
    fun o ho => .inl (outcomes_refill l ▸ ho), fun h => full_refill fun hb => ?_⟩
  exact Nat.le_trans (h hb) (Nat.le_succ _)

theorem commands_take (command : Command) (rest : List Command) (l : Link) :
    commands { refill { l with queue := rest } with agent := .executing command } =
      command :: (rest ++ l.blocked) :=
  congrArg (List.cons command) (queue_refill { l with queue := rest })

/-- What the agent takes, was in the queue. -/
theorem onward_take {command : Command} {rest : List Command} {l : Link}
    (hq : l.queue = command :: rest) :
    l.Onward { refill { l with queue := rest } with agent := .executing command } := by
  have houtcomes := outcomes_refill { l with queue := rest }
  refine ⟨Nat.le_of_eq (nextCall_refill { l with queue := rest }).symm, fun c hc => .inl ?_,
    fun o ho => .inl ?_, fun h => full_refill fun hb => ?_⟩
  · rw [commands_take] at hc
    rw [commands, hq, List.append_assoc]
    exact List.mem_append_right _ hc
  · exact houtcomes ▸ ho
  · have hlen := h hb
    rw [hq] at hlen
    exact hlen

/-- Every call that waits gets its outcome when the agent stops. -/
theorem onward_stop (l : Link) : l.Onward l.stop.1 := by
  refine ⟨Nat.le_refl _, fun c hc => (by cases hc), fun o ho => ?_, fun _ hb => absurd rfl hb⟩
  rcases List.mem_append.mp ho with ho | ho
  · rcases List.mem_append.mp ho with ho | ho
    · exact .inl ho
    · obtain ⟨c, hc, hmem⟩ := List.mem_flatMap.mp ho
      have hin : c ∈ l.commands := List.mem_append_left _ (List.mem_append_right _ hc)
      exact .inr (.inl ⟨c, hin, call?_of_mem_abandoned hmem, allows_of_mem_abandoned hmem⟩)
  · obtain ⟨c, hc, hmem⟩ := List.mem_flatMap.mp ho
    have hin : c ∈ l.commands := List.mem_append_right _ hc
    exact .inr (.inl ⟨c, hin, call?_of_mem_abandoned hmem, allows_of_mem_abandoned hmem⟩)

theorem onward_quit {call : CallId} {rest : List Command} {l : Link}
    (hq : l.queue = .close call :: rest) :
    l.Onward (stop { l with queue := rest, outcomes := l.outcomes ++ [(call, .ok ())] }).1 := by
  have hstop := onward_stop { l with queue := rest, outcomes := l.outcomes ++ [(call, .ok ())] }
  have hrest : ∀ c, c ∈ commands { l with queue := rest } → c ∈ l.commands := by
    intro c hc
    simp only [commands, List.mem_append, hq, List.mem_cons] at hc ⊢
    tauto
  refine ⟨Nat.le_refl _, fun c hc => (by cases hc), fun o ho => ?_, fun _ hb => absurd rfl hb⟩
  -- The outcome of the call that closes the link is there before the agent stops.
  rcases hstop.outcomes o ho with hold | ⟨c, hc, hcall, hallows⟩ | hnew
  · refine (List.mem_append.mp hold).imp_right fun hmem => .inl ⟨.close call, ?_, ?_⟩
    · exact List.mem_append_left _ (List.mem_append_right _ (hq ▸ List.mem_cons_self))
    · rw [List.mem_singleton.mp hmem]
      exact ⟨rfl, trivial⟩
  · exact .inr (.inl ⟨c, hrest c hc, hcall, hallows⟩)
  · exact .inr (.inr hnew)

/-- A reply is the outcome of the call whose command was executing. -/
theorem onward_conclude {command : Command} {l : Link} (h : l.agent = .executing command)
    (r : BrokerReply) :
    l.Onward { l with agent := .idle, outcomes := l.outcomes ++ (conclude command r).1 } := by
  refine ⟨Nat.le_refl _, fun c hc => .inl ?_, fun o ho => ?_, id⟩
  · simp only [commands, Agent.commands, List.nil_append, List.append_assoc] at hc ⊢
    exact List.mem_append_right _ hc
  · refine (List.mem_append.mp ho).imp_right fun hmem =>
      .inl ⟨command, ?_, call?_of_mem_conclude hmem, allows_of_mem_conclude hmem⟩
    simp [commands, h, Agent.commands]


/-- An unsubscription belongs to no call. -/
theorem onward_unsubscribe (channel : Key) (l : Link) :
    l.Onward { l with queue := l.queue ++ [.unsubscribe channel] } := by
  refine ⟨Nat.le_refl _, fun c hc => ?_, fun _ => .inl, fun h hb => ?_⟩
  · simp only [commands, List.mem_append, List.mem_singleton] at hc ⊢
    rcases hc with (hc | hc | hc) | hc
    · exact .inl (.inl (.inl hc))
    · exact .inl (.inl (.inr hc))
    · rw [hc]
      exact .inr fun call hcall => by cases hcall
    · exact .inl (.inr hc)
  · refine Nat.le_trans (h hb) ?_
    rw [List.length_append]
    exact Nat.le_add_right _ _

/-- Commands that wait for room can be taken back. -/
theorem onward_unblock (p : Command → Bool) (l : Link) :
    l.Onward { l with blocked := l.blocked.filter p } := by
  refine ⟨Nat.le_refl _, fun c hc => .inl ?_, fun _ => .inl, fun h hb => ?_⟩
  · simp only [commands, List.mem_append] at hc ⊢
    exact hc.imp_right fun hmem => (List.mem_filter.mp hmem).1
  · refine h fun hempty => hb ?_
    rw [hempty]
    rfl

/-- The agent can let go of its command. -/
theorem onward_idle (l : Link) : l.Onward { l with agent := .idle } := by
  refine ⟨Nat.le_refl _, fun c hc => .inl ?_, fun _ => .inl, id⟩
  simp only [commands, Agent.commands, List.nil_append, List.append_assoc] at hc ⊢
  exact List.mem_append_right _ hc

/-! ### Whole steps -/

/-- How a link develops that releases no listener. -/
structure Extends (l l' : Link) : Prop where
  listeners : l.listeners.Extends l'.listeners
  onward : l.Onward l'

theorem Extends.refl (l : Link) : l.Extends l := ⟨.refl _, .refl _⟩

theorem Extends.trans {l₁ l₂ l₃ : Link} (h : l₁.Extends l₂) (h' : l₂.Extends l₃) : l₁.Extends l₃ :=
  ⟨h.listeners.trans h'.listeners, h.onward.trans h'.onward⟩

/-- Listeners have no part in how commands go on. -/
theorem Onward.withListeners {l l' : Link} (h : l.Onward l') (listeners listeners' : Listeners) :
    Onward { l with listeners } { l' with listeners := listeners' } :=
  ⟨h.next_le, h.commands, h.outcomes, h.full⟩

theorem onward_subscribe (channel : Key) (l : Link) : l.Onward (l.subscribe channel) := by
  have hadd : l.Onward { l with listeners := l.listeners.add channel } := .same rfl rfl rfl rfl rfl
  exact hadd.trans (onward_send rfl)

theorem onward_release (channel : Key) (id : ListenerId) (l : Link) :
    l.Onward (l.release channel id).1 := by
  have hreleased : l.Onward { l with listeners := l.listeners.release channel id } :=
    .same rfl rfl rfl rfl rfl
  unfold release
  dsimp only
  split
  · split
    · exact hreleased
    · split
      · exact hreleased.trans (onward_unsubscribe channel _)
      · exact hreleased
  · exact hreleased

theorem onward_abandon (call : CallId) (channel : Key) (id : ListenerId) (l : Link) :
    l.Onward (l.abandon call channel id).1 :=
  (onward_unblock _ l).trans (onward_release channel id _)

theorem extends_fetched (call : CallId) (l : Link) : l.Extends (l.fetched call) :=
  ⟨.refl _, onward_fetched call l⟩

theorem extends_publish (channel : Key) (payload : Text.Bytes) (l : Link) :
    l.Extends (l.publish channel payload) := by
  exact ⟨.of_eq (listeners_send _ l), onward_send rfl⟩

theorem extends_close (l : Link) : l.Extends l.close := by
  exact ⟨.of_eq (listeners_send _ l), onward_send rfl⟩

theorem extends_deliver (channel : Key) (payload : Text.Bytes) (l : Link) :
    l.Extends (l.deliver channel payload).1 :=
  ⟨l.listeners.extends_offer channel payload, .same rfl rfl rfl rfl rfl⟩

theorem extends_streamEnd (l : Link) : l.Extends l.streamEnd.1 := by
  unfold streamEnd
  split
  · exact .refl _
  · exact ⟨l.listeners.extends_disconnect, onward_stop l⟩

theorem extends_desert (l : Link) : l.Extends l.desert.1 := by
  unfold desert
  split
  · exact ⟨l.listeners.extends_disconnect, onward_stop l⟩
  · exact .refl _

theorem extends_reply (r : BrokerReply) (l : Link) : l.Extends (l.reply r).1 := by
  refine ⟨.of_eq (listeners_reply r l), ?_⟩
  unfold reply
  split
  · next command hagent => exact onward_conclude hagent r
  · exact .refl _

theorem extends_take (l : Link) : l.Extends l.take.1 := by
  unfold take
  split
  · next command rest hidle hq =>
    have hrefill : (refill { l with queue := rest }).listeners = l.listeners := listeners_refill _
    have htakes :
      ∀ agent, l.listeners.Extends { refill { l with queue := rest } with agent }.listeners :=
      fun _ => .of_eq hrefill
    dsimp only
    split
    · exact ⟨l.listeners.extends_disconnect, onward_quit hq⟩
    · split
      · -- The command is taken and let go of at once.
        refine ⟨.of_eq hrefill, ((onward_take hq).trans (onward_idle _)).trans ?_⟩
        exact .same ((agent_refill _).trans hidle) rfl rfl rfl rfl
      · exact ⟨htakes _, onward_take hq⟩
    · exact ⟨htakes _, onward_take hq⟩
  · exact .refl _

/-! ### Calls that ask for a listener -/

theorem mem_of_outcome? {l : Link} {call : CallId} {r : Except Failure Unit}
    (h : l.outcome? call = some r) : (call, r) ∈ l.outcomes := by
  obtain ⟨earlier, later, hsplit, -⟩ := List.lookup_eq_some_iff.mp h
  rw [hsplit]
  exact List.mem_append_right _ List.mem_cons_self

/-- Whether a call asks for a listener, and is refused by a failure of the transport if it is. -/
structure Seeks (call : CallId) (l : Link) : Prop where
  handed : call < l.nextCall
  command : ∀ c ∈ l.commands, c.call? = some call → ∃ channel, c = .subscribe call channel
  refusal : ∀ f, (call, .error f) ∈ l.outcomes → ∃ message, f = .transport message

theorem Seeks.onward {call : CallId} {l l' : Link} (h : l.Seeks call) (hon : l.Onward l') :
    l'.Seeks call := by
  refine ⟨Nat.lt_of_lt_of_le h.handed hon.next_le, fun c hc hcall => ?_, fun f hf => ?_⟩
  · rcases hon.commands c hc with hold | hnew
    · exact h.command c hold hcall
    · exact absurd (hnew call hcall).1 (Nat.not_le.mpr h.handed)
  · rcases hon.outcomes _ hf with hold | ⟨c, hc, hcall, hallows⟩ | hnew
    · exact h.refusal f hold
    · obtain ⟨channel, rfl⟩ := h.command c hc hcall
      exact hallows
    · exact absurd hnew.1 (Nat.not_le.mpr h.handed)

theorem Orderly.seeks_subscribe {l : Link} (h : l.Orderly) (channel : Key) :
    (l.subscribe channel).Seeks l.nextCall := by
  refine ⟨Nat.lt_succ_self _, fun c hc hcall => ?_, fun f hf => ?_⟩
  · rcases mem_commands_send hc with hold | rfl
    · exact absurd (h.commands_lt c hold _ hcall) (Nat.lt_irrefl _)
    · exact ⟨channel, rfl⟩
  · unfold subscribe send at hf
    dsimp only at hf
    split at hf
    · rcases List.mem_append.mp hf with hold | hnew
      · exact absurd (h.outcomes_lt _ hold) (Nat.lt_irrefl _)
      · cases List.mem_singleton.mp hnew
        exact ⟨_, rfl⟩
    · -- Only a link that has stopped has an outcome at once.
      have hold : (l.nextCall, .error f) ∈ l.outcomes := by
        split at hf
        · exact hf
        · exact hf
      exact absurd (h.outcomes_lt _ hold) (Nat.lt_irrefl _)

theorem Seeks.of_outcome {call : CallId} {l : Link} (h : l.Seeks call) {f : Failure}
    (ho : l.outcome? call = some (.error f)) : ∃ message, f = .transport message :=
  h.refusal f (mem_of_outcome? ho)

end Link

end Redis

namespace Simulation.Station

open Roaming.Redis (Resp)

theorem extends_work (v : Resp) (s : Station) : s.link.Extends (s.work v).1.link := by
  unfold work
  split
  · split
    · exact s.link.extends_deliver _ _
    · exact .refl _
  · dsimp only
    split
    · exact s.link.extends_reply _
    · exact s.link.extends_streamEnd

theorem extends_absorbFrom (fuel : Nat) (s : Station) :
    s.link.Extends (s.absorbFrom fuel).1.link := by
  induction fuel generalizing s with
  | zero => exact .refl _
  | succ fuel ih =>
    unfold absorbFrom
    split
    · exact .refl _
    · split
      · exact .refl _
      · exact s.link.extends_streamEnd
      · rename_i v rest _
        exact (extends_work v { s with arrived := rest }).trans (ih _)

theorem extends_absorb (s : Station) : s.link.Extends s.absorb.1.link := by
  unfold absorb
  have h := s.extends_absorbFrom s.arrived.length
  dsimp only
  split
  · exact h.trans (Redis.Link.extends_streamEnd _)
  · exact h

theorem extends_receive (bytes : Text.Bytes) (s : Station) :
    s.link.Extends (s.receive bytes).1.link := by
  unfold receive
  split
  · exact .refl _
  · exact s.link.extends_reply _
  · exact s.link.extends_reply _

end Simulation.Station

end Roaming
