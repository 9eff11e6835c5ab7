import Roaming.Proofs.Calls

/-!
# Confirmed subscriptions

Once the broker has confirmed the subscription of a listener, the connection stays subscribed to its
channel for as long as the listener is not struck out and the agent runs: an unsubscription that an
earlier listener left behind is skipped if it is taken late, and served before the confirmation if
it is taken early. The listener therefore is offered everything that is published on its channel.
-/

set_option autoImplicit false
set_option relaxedAutoImplicit false

namespace Roaming.Redis

open Roaming.Text (Bytes)

namespace Command

theorem mem_effect {command : Command} {channels : List Key} {channel : Key} :
    channel ∈ command.effect channels ↔
      channel ∈ channels ∧ command ≠ .unsubscribe channel ∨
        ∃ call, command = .subscribe call channel := by
  cases command with
  | subscribe call k =>
    have hmem :
        channel ∈ effect channels (.subscribe call k) ↔ channel ∈ channels ∨ k = channel := by
      simp only [effect]
      split
      · next hk => exact ⟨.inl, fun h => h.elim id fun he => he ▸ hk⟩
      · rw [List.mem_append, List.mem_singleton, eq_comm]
    simp [hmem]
  | unsubscribe k => simp [effect, ne_comm]
  | publish call k payload => simp [effect]
  | close call => simp [effect]

end Command

namespace System

/-- The command that has reached the broker and is not served yet. -/
def asked? (s : System) : Option Command :=
  match s.link.agent, s.service with
  | .executing command, .asked => some command
  | _, _ => none

theorem asked?_eq_some {s : System} {command : Command} (h : s.asked? = some command) :
    s.link.agent = .executing command ∧ s.service = .asked := by
  unfold asked? at h
  split at h
  · next hagent hservice =>
    cases h
    exact ⟨hagent, hservice⟩
  · cases h

theorem asked?_of_executing {s : System} {command : Command}
    (hagent : s.link.agent = .executing command)
    (hservice : s.service = .asked) : s.asked? = some command := by
  rw [asked?, hagent, hservice]

/-- Whether the broker has confirmed the subscription of a subscriber who has not let
go of it since. -/
inductive Confirmed (s : System) : Subscriber → Prop where
  /-- The confirmation is on its way. -/
  | replied (id : ListenerId) (channel : Key) (call : CallId) (n : Int)
      (hagent : s.link.agent = .executing (.subscribe call channel))
      (hservice : s.service = .answered (.ok n)) : Confirmed s ⟨id, channel, .waiting call⟩
  /-- It is there to be taken. -/
  | reported (id : ListenerId) (channel : Key) (call : CallId)
      (ho : (call, .ok ()) ∈ s.link.outcomes) : Confirmed s ⟨id, channel, .waiting call⟩
  | taken (id : ListenerId) (channel : Key) : Confirmed s ⟨id, channel, .held⟩

theorem Confirmed.isEntered {s : System} {u : Subscriber} (h : s.Confirmed u) :
    u.hold.isEntered = true := by
  cases h <;> rfl

/-- Whether the broker passes on what is published on a channel, and is not asked to stop that. -/
structure Armed (s : System) (channel : Key) : Prop where
  subscribed : channel ∈ s.channels
  kept : s.asked? ≠ some (.unsubscribe channel)

variable {s s' : System} {a : Act} {u : Subscriber} {channel : Key}

/-- The broker stays subscribed to a channel that has a listener. -/
theorem Armed.act (h : s.Armed channel) (hwanted : s.link.listeners.wanted channel = true)
    (a : Act) : (s.act a).Armed channel := by
  have hchange := s.act_change a
  generalize s.act a = s' at hchange
  have hsame : s'.channels = s.channels → s'.link.agent = s.link.agent → s'.service = s.service →
      s'.Armed channel := by
    intro hchannels hagent hservice
    refine ⟨hchannels ▸ h.subscribed, ?_⟩
    rw [asked?, hagent, hservice]
    exact h.kept
  have hquiet : s'.channels = s.channels → (∀ command, s'.link.agent = .executing command →
      s'.service ≠ .asked) → s'.Armed channel := by
    intro hchannels hquiet
    refine ⟨hchannels ▸ h.subscribed, fun hasked => ?_⟩
    exact hquiet _ (asked?_eq_some hasked).1 (asked?_eq_some hasked).2
  cases hchange with
  | still a hnone hsilent hread => exact h
  | registers channel => exact hsame rfl rfl rfl
  | requests id channel hu => exact hsame rfl (Link.agent_send _ _) rfl
  | confirms id channel call hu ho => exact hsame rfl rfl rfl
  | refuses id channel call hu f ho => exact hsame rfl rfl rfl
  | desists id channel hu => exact hsame rfl rfl rfl
  | givesUp id channel call hu => exact hsame rfl rfl rfl
  | strikes id channel hold hu hhold => exact hsame rfl rfl rfl
  | retires id channel last hu =>
    cases last with
    | true => exact hsame rfl (Link.agent_retire channel s.link) rfl
    | false => exact hsame rfl rfl rfl
  | reads id hread => exact hsame rfl rfl rfl
  | publishes channel payload => exact hsame rfl (Link.agent_send _ _) rfl
  | closes => exact hsame rfl (Link.agent_send _ _) rfl
  | letsGo => exact hsame rfl rfl rfl
  | takes command rest hidle hq hcommand => exact hquiet rfl fun _ _ => by simp
  | quits call rest hidle hq => exact hquiet rfl fun _ _ => by simp
  | rests a ha hagent => exact hquiet rfl fun _ _ => by simp
  | skips channel hagent hservice hwanted => exact hquiet rfl fun _ hagent => by cases hagent
  | sends command hagent hservice hunwanted =>
    -- The agent has just seen that nobody wants the channel of an unsubscription.
    refine ⟨h.subscribed, fun hasked => ?_⟩
    have hcommand := Agent.executing.inj (hagent.symm.trans (asked?_eq_some hasked).1)
    rw [hunwanted channel hcommand] at hwanted
    cases hwanted
  | serves command hagent hservice r applied hdone =>
    have hne : command ≠ .unsubscribe channel := by
      rintro rfl
      exact h.kept (asked?_of_executing hagent hservice)
    refine ⟨Command.mem_effect.mpr (.inl ⟨h.subscribed, hne⟩), fun hasked => ?_⟩
    cases (asked?_eq_some hasked).2
  | declines command hagent hservice text => exact hquiet rfl fun _ _ => by simp
  | concludes command hagent r hservice => exact hquiet rfl fun _ hagent => by cases hagent
  | delivers pub rest hidle hstream => exact hsame rfl rfl rfl
  | ends a ha hidle => exact hquiet rfl fun _ hagent => by cases hagent
  | speaks pub => exact hsame rfl rfl rfl

/-- Without a confirmation on its way, only the outcomes that are there tell who is confirmed. -/
theorem Confirmed.back (h : s'.Confirmed u)
    (houtcomes : ∀ o ∈ s'.link.outcomes, o ∈ s.link.outcomes)
    (hreply : ∀ command n, s'.link.agent = .executing command → s'.service = .answered (.ok n) →
      s.link.agent = .executing command ∧ s.service = .answered (.ok n)) : s.Confirmed u := by
  cases h with
  | replied id channel call n hagent hservice =>
    obtain ⟨hagent, hservice⟩ := hreply _ _ hagent hservice
    exact .replied id channel call n hagent hservice
  | reported id channel call ho => exact .reported id channel call (houtcomes _ ho)
  | taken id channel => exact .taken id channel

/-- Nothing was executed or reported for a new call. -/
private theorem Calling.not_confirmed (hc : s.Calling) (hu : u.hold = .waiting s.link.nextCall) :
    ¬ s.Confirmed u := by
  intro hconfirmed
  cases hconfirmed with
  | replied id channel call n hagent hservice =>
    cases hu
    have hin : Command.subscribe s.link.nextCall channel ∈ s.link.commands := by
      simp [Link.commands, hagent, Agent.commands]
    exact Nat.lt_irrefl _ (hc.orderly.commands_lt _ hin _ rfl)
  | reported id channel call ho =>
    cases hu
    exact Nat.lt_irrefl _ (hc.orderly.outcomes_lt _ ho)
  | taken id channel => cases hu

/-- A call to subscribe succeeds only through the broker's confirmation of its command. -/
private theorem Calling.confirmed_of_conclude (hc : s.Calling) {command : Command}
    {r : Link.BrokerReply} (hagent : s.link.agent = .executing command)
    (hservice : s.service = .answered r) {id : ListenerId} {call : CallId}
    (hu : ⟨id, channel, .waiting call⟩ ∈ s.subscribers)
    (ho : (call, .ok ()) ∈ (Link.conclude command r).1) :
    s.Confirmed ⟨id, channel, .waiting call⟩ := by
  have hin : command ∈ s.link.commands := by simp [Link.commands, hagent, Agent.commands]
  obtain rfl := (hc.waiting _ hu call rfl).2 command hin (Link.call?_of_mem_conclude ho)
  cases r with
  | ok n => exact .replied id channel call n hagent hservice
  | error text => cases List.mem_singleton.mp ho

/-- A new confirmation comes of the broker's having subscribed the link. -/
theorem armed_or_confirmed (hs : s.Seated) (hc : s.Calling)
    (hrun : (s.act a).link.isStopped = false) (hu : u ∈ (s.act a).subscribers)
    (hconfirmed : (s.act a).Confirmed u) :
    (∃ v ∈ s.subscribers, s.Confirmed v ∧ v.channel = u.channel) ∨ (s.act a).Armed u.channel := by
  have hrun' : s.link.isStopped = false := running_of_act hrun
  have hchange := s.act_change a
  generalize s.act a = s' at hchange hrun hu hconfirmed
  have hsame : ∀ {v}, s'.Confirmed v → (∀ o ∈ s'.link.outcomes, o ∈ s.link.outcomes) →
      s'.link.agent = s.link.agent → s'.service = s.service → s.Confirmed v :=
    fun hv houtcomes hagent hservice => hv.back houtcomes fun _ _ hagent' hservice' =>
      ⟨hagent.symm.trans hagent', hservice.symm.trans hservice'⟩
  have hquiet : (∀ o ∈ s'.link.outcomes, o ∈ s.link.outcomes) →
      (∀ command n, s'.link.agent = .executing command → s'.service ≠ .answered (.ok n)) →
      s.Confirmed u :=
    fun houtcomes hnone => hconfirmed.back houtcomes fun _ _ hagent hservice =>
      absurd hservice (hnone _ _ hagent)
  have hkept : ∀ o ∈ s.link.outcomes, o ∈ s.link.outcomes := fun _ ho => ho
  have hsend : ∀ {command : Command}, ∀ o ∈ (s.link.send command).outcomes, o ∈ s.link.outcomes :=
    fun o ho => Link.outcomes_send hrun' _ ▸ ho
  have hfetched : ∀ {call}, ∀ o ∈ (s.link.fetched call).outcomes, o ∈ s.link.outcomes :=
    fun o ho => (List.mem_filter.mp ho).1
  -- Who is put into another state, is not confirmed by that.
  have hput : ∀ {id : ListenerId} {hold' : Hold}, u ∈ (s.put id hold').subscribers →
      (∀ v : Subscriber, v.hold = hold' → ¬ s'.Confirmed v) → u ∈ s.subscribers := by
    intro id hold' hmem hnot
    rcases mem_put.mp hmem with ⟨hmem, -⟩ | ⟨v, -, -, rfl⟩
    · exact hmem
    · exact absurd hconfirmed (hnot _ rfl)
  have hlost : ∀ v : Subscriber, (v.hold = .failed ∨ ∃ last, v.hold = .leaving last) →
      ¬ s'.Confirmed v := by
    rintro v hv hconf
    cases hconf <;> simp at hv
  cases hchange with
  | still a hnone hsilent hread => exact .inl ⟨u, hu, hconfirmed, rfl⟩
  | registers channel =>
    rcases List.mem_append.mp hu with hu | hu
    · exact .inl ⟨u, hu, hsame hconfirmed hkept rfl rfl, rfl⟩
    · rw [List.mem_singleton.mp hu] at hconfirmed
      cases hconfirmed
  | requests id channel hreg =>
    have hback : ∀ {v}, _ → s.Confirmed v := fun hv => hsame hv hsend (Link.agent_send _ _) rfl
    refine .inl ⟨u, hput hu fun v hv hconf => ?_, hback hconfirmed, rfl⟩
    exact hc.not_confirmed hv (hback hconf)
  | confirms id channel call hw ho =>
    rcases (hs.mem_put_iff hw).mp hu with ⟨hu, -⟩ | rfl
    · exact .inl ⟨u, hu, hsame hconfirmed hfetched rfl rfl, rfl⟩
    · exact .inl ⟨_, hw, .reported id channel call (Link.mem_of_outcome? ho), rfl⟩
  | refuses id channel call hw f ho =>
    have hu := hput hu fun v hv => hlost v (.inl hv)
    exact .inl ⟨u, hu, hsame hconfirmed hfetched rfl rfl, rfl⟩
  | desists id channel hw =>
    have hu := hput hu fun v hv => hlost v (.inl hv)
    exact .inl ⟨u, hu, hsame hconfirmed hkept rfl rfl, rfl⟩
  | givesUp id channel call hw =>
    have hu := hput hu fun v hv => hlost v (.inl hv)
    exact .inl ⟨u, hu, hsame hconfirmed hkept rfl rfl, rfl⟩
  | strikes id channel hold' hw hhold =>
    have hu := hput hu fun v hv => hlost v (.inr ⟨_, hv⟩)
    exact .inl ⟨u, hu, hsame hconfirmed hkept rfl rfl, rfl⟩
  | retires id channel last hw =>
    refine .inl ⟨u, (mem_without.mp hu).1, ?_, rfl⟩
    cases last with
    | true =>
      have houtcomes := Link.outcomes_retire channel s.link
      exact hsame hconfirmed (fun o ho => houtcomes ▸ ho) (Link.agent_retire channel s.link) rfl
    | false => exact hsame hconfirmed hkept rfl rfl
  | reads id hread => exact .inl ⟨u, hu, hsame hconfirmed hkept rfl rfl, rfl⟩
  | publishes channel payload =>
    exact .inl ⟨u, hu, hsame hconfirmed hsend (Link.agent_send _ _) rfl, rfl⟩
  | closes => exact .inl ⟨u, hu, hsame hconfirmed hsend (Link.agent_send _ _) rfl, rfl⟩
  | letsGo => exact .inl ⟨u, hu, hsame hconfirmed hkept rfl rfl, rfl⟩
  | takes command rest hidle hq hcommand =>
    have houtcomes := Link.outcomes_refill { s.link with queue := rest }
    exact .inl ⟨u, hu, hquiet (fun o ho => houtcomes ▸ ho) (by simp), rfl⟩
  | quits call rest hidle hq => cases hrun
  | rests a ha hagent => exact .inl ⟨u, hu, hquiet hkept (by simp), rfl⟩
  | skips channel hagent hservice hwanted => exact .inl ⟨u, hu, hquiet hkept (by simp), rfl⟩
  | sends command hagent hservice hwanted => exact .inl ⟨u, hu, hquiet hkept (by simp), rfl⟩
  | serves command hagent hservice r applied hdone =>
    cases hconfirmed with
    | replied id channel call n hagent' hservice' =>
      -- This is where the connection gets its channel.
      obtain rfl := Agent.executing.inj (hagent.symm.trans hagent')
      refine .inr ⟨Command.mem_effect.mpr (.inr ⟨call, rfl⟩), fun hasked => ?_⟩
      cases (asked?_eq_some hasked).2
    | reported id channel call ho => exact .inl ⟨_, hu, .reported id channel call ho, rfl⟩
    | taken id channel => exact .inl ⟨_, hu, .taken id channel, rfl⟩
  | declines command hagent hservice text => exact .inl ⟨u, hu, hquiet hkept (by simp), rfl⟩
  | concludes command hagent r hservice =>
    cases hconfirmed with
    | replied id channel call n hagent' hservice' => cases hagent'
    | taken id channel => exact .inl ⟨_, hu, .taken id channel, rfl⟩
    | reported id channel call ho =>
      rcases List.mem_append.mp ho with ho | ho
      · exact .inl ⟨_, hu, .reported id channel call ho, rfl⟩
      · exact .inl ⟨_, hu, hc.confirmed_of_conclude hagent hservice hu ho, rfl⟩
  | delivers pub rest hidle hstream => exact .inl ⟨u, hu, hsame hconfirmed hkept rfl rfl, rfl⟩
  | ends a ha hidle => cases hrun
  | speaks pub => exact .inl ⟨u, hu, hsame hconfirmed hkept rfl rfl, rfl⟩

/-- What is true of a system at all times. -/
structure Sound (s : System) : Prop extends Seated s, Calling s where
  armed : s.link.isStopped = false → ∀ u ∈ s.subscribers, s.Confirmed u → s.Armed u.channel

/-- Whose listener is not struck out, has its channel wanted. -/
theorem Seated.wanted (h : s.Seated) (hrun : s.link.isStopped = false) (hu : u ∈ s.subscribers)
    (hentered : u.hold.isEntered = true) : s.link.listeners.wanted u.channel = true := by
  have hon := h.entered hrun u hu hentered
  simpa [Listeners.wanted] using List.ne_nil_of_mem hon

theorem Sound.act (h : s.Sound) (a : Act) : (s.act a).Sound where
  toSeated := h.toSeated.act a
  toCalling := h.toCalling.act h.toSeated a
  armed hrun u hu hconfirmed := by
    have hrun' := running_of_act hrun
    rcases armed_or_confirmed h.toSeated h.toCalling hrun hu hconfirmed with
      ⟨v, hv, hvc, he⟩ | harmed
    · have hwanted := h.wanted hrun' hv hvc.isEntered
      exact he ▸ (h.armed hrun' v hv hvc).act hwanted a
    · exact harmed

theorem opening_sound : opening.Sound where
  toSeated := opening_seated
  orderly :=
    ⟨by simp [opening, Link.commands, Agent.commands], by simp [opening], by simp [opening]⟩
  waiting := by simp [opening]
  armed := by simp [opening]

theorem Sound.after (h : s.Sound) (acts : List Act) : (s.after acts).Sound := by
  induction acts generalizing s with
  | nil => exact h
  | cons a acts ih => exact ih (h.act a)

end System

end Roaming.Redis
