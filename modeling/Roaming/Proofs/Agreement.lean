import Roaming.Proofs.Reception

/-!
# Agreement with the broker

The commands that the broker has not served yet tell which channels it will have in the end
(`System.prospect`). A channel that nobody wants, and whose unsubscription is not about to be
queued, is never among them, as long as the broker carries unsubscriptions out and the queue takes
them. A link with nothing to do is therefore subscribed to the channels of its listeners only.
-/

set_option autoImplicit false
set_option relaxedAutoImplicit false

namespace Roaming

/-- A key is listed if somebody waits on it. -/
theorem Registry.mem_keys {r : Registry} (h : r.InOrder) {key : Key} :
    key ∈ r.map Prod.fst ↔ r.on key ≠ [] := by
  refine ⟨fun hkey => ?_, fun hne => ?_⟩
  · obtain ⟨entry, hentry, rfl⟩ := List.mem_map.mp hkey
    rw [on_eq_of_mem h hentry]
    exact h.ne_nil entry hentry
  · by_contra hnot
    exact hne (on_eq_nil hnot)

namespace Redis

/-! ### Commands in a row -/

/-- The channels after the broker has carried out commands in order. -/
def Command.effects (channels : List Key) (commands : List Command) : List Key :=
  commands.foldl Command.effect channels

namespace Command

variable {channels channels' : List Key} {channel : Key}

theorem effects_cons (channels : List Key) (command : Command) (rest : List Command) :
    effects channels (command :: rest) = effects (command.effect channels) rest := rfl

theorem effects_append (channels : List Key) (commands commands' : List Command) :
    effects channels (commands ++ commands') = effects (effects channels commands) commands' :=
  List.foldl_append

theorem mem_effect_mono {command : Command} (h : channel ∈ channels → channel ∈ channels')
    (hmem : channel ∈ command.effect channels) : channel ∈ command.effect channels' :=
  mem_effect.mpr ((mem_effect.mp hmem).imp_left (And.imp_left h))

theorem mem_effects_mono {commands : List Command} (h : channel ∈ channels → channel ∈ channels')
    (hmem : channel ∈ effects channels commands) : channel ∈ effects channels' commands := by
  induction commands generalizing channels channels' with
  | nil => exact h hmem
  | cons command rest ih => exact ih (mem_effect_mono h) hmem

/-- Without some of its subscriptions, a row of commands leads to fewer channels. -/
theorem mem_effects_of_filter {commands : List Command} {p : Command → Bool}
    (hp : ∀ c ∈ commands, p c = false → ∃ call k, c = .subscribe call k)
    (hmem : channel ∈ effects channels (commands.filter p)) :
    channel ∈ effects channels commands := by
  induction commands generalizing channels with
  | nil => exact hmem
  | cons command rest ih =>
    have hrest : ∀ c ∈ rest, p c = false → ∃ call k, c = .subscribe call k :=
      fun c hc => hp c (List.mem_cons_of_mem _ hc)
    cases hpc : p command with
    | true =>
      rw [List.filter_cons_of_pos hpc] at hmem
      exact ih hrest hmem
    | false =>
      rw [List.filter_cons_of_neg (by simp [hpc])] at hmem
      obtain ⟨call, k, rfl⟩ := hp command List.mem_cons_self hpc
      have hin : channel ∈ channels → channel ∈ effect channels (.subscribe call k) :=
        fun h => mem_effect.mpr (.inl ⟨h, by simp⟩)
      rw [effects_cons]
      exact mem_effects_mono hin (ih hrest hmem)

end Command

/-- The command of the agent, unless the broker has served it. -/
def Service.pending (agent : Agent) : Service → List Command
  | .answered _ => []
  | _ => agent.commands

namespace Link

theorem queue_send {l : Link} (h : l.isStopped = false) (command : Command) :
    (l.send command).queue ++ (l.send command).blocked = l.queue ++ l.blocked ++ [command] := by
  unfold send
  rw [h, if_neg Bool.false_ne_true]
  split
  · next hroom =>
    have hempty : l.blocked = [] := by
      simp only [hasRoom, Bool.and_eq_true, List.isEmpty_iff] at hroom
      exact hroom.2
    simp [hempty]
  · simp

theorem queue_retire {l : Link} (h : l.isStopped = false) (hroom : l.hasRoom = true)
    (channel : Key) :
    (l.retire channel).queue ++ (l.retire channel).blocked =
      l.queue ++ l.blocked ++ [.unsubscribe channel] := by
  have hempty : l.blocked = [] := by
    simp only [hasRoom, Bool.and_eq_true, List.isEmpty_iff] at hroom
    exact hroom.2
  unfold retire
  rw [h, hroom]
  simp [hempty]

end Link

namespace System

/-- The commands that the broker has not served yet, in the order in which it will. -/
def line (s : System) : List Command :=
  s.service.pending s.link.agent ++ (s.link.queue ++ s.link.blocked)

/-- The channels that the broker will have once it has carried out every command. -/
def prospect (s : System) : List Key := Command.effects s.channels s.line

/-- Whether nobody wants a channel or is about to queue the unsubscription from it. -/
structure Forsaken (s : System) (channel : Key) : Prop where
  unwanted : s.link.listeners.wanted channel = false
  settled : ∀ u ∈ s.subscribers, u.channel = channel → u.hold ≠ .leaving true

/-- Whether no subscription is left over. -/
def Tight (s : System) : Prop := ∀ channel, s.Forsaken channel → channel ∉ s.prospect

/-- Whether an act goes well: the broker carries an unsubscription out, and the queue takes one.
What the broker makes of a subscription that it refuses does not matter. -/
def IsSmooth (s : System) : Act → Prop
  | .serve r applied =>
    ∀ channel, s.asked? = some (.unsubscribe channel) → (r.isOk || applied) = true
  | .retire id =>
    ∀ channel, ⟨id, channel, .leaving true⟩ ∈ s.subscribers →
      s.link.isStopped = true ∨ s.link.hasRoom = true
  | _ => True

/-- Whether every act of a run goes well. -/
def RunsSmoothly (s : System) : List Act → Prop
  | [] => True
  | a :: acts => s.IsSmooth a ∧ (s.act a).RunsSmoothly acts

/-- Whether nothing is under way: no command is queued or executed, and nobody is about to get a
listener or to let go of one. -/
structure IsIdle (s : System) : Prop where
  agent : s.link.agent = .idle
  queue : s.link.queue = []
  held : ∀ u ∈ s.subscribers, u.hold = .held

variable {s s' : System} {a : Act} {id : ListenerId} {channel : Key} {hold hold' : Hold}

/-! ### The line -/

theorem line_of_not_executing (h : ∀ command, s.link.agent ≠ .executing command) :
    s.line = s.link.queue ++ s.link.blocked := by
  have hnone : s.link.agent.commands = [] := by
    cases hagent : s.link.agent with
    | executing command => exact absurd hagent (h command)
    | idle => rfl
    | stopped => rfl
  unfold line Service.pending
  split
  · rfl
  · rw [hnone, List.nil_append]

theorem line_of_answered {r : Link.BrokerReply} (h : s.service = .answered r) :
    s.line = s.link.queue ++ s.link.blocked := by
  rw [line, h]
  rfl

theorem line_of_executing {command : Command} (hagent : s.link.agent = .executing command)
    (hservice : ∀ r, s.service ≠ .answered r) :
    s.line = command :: (s.link.queue ++ s.link.blocked) := by
  unfold line Service.pending
  split
  · next r hanswered => exact absurd hanswered (hservice r)
  · rw [hagent]
    rfl

/-- What is handed in goes to the end of the line. -/
private theorem prospect_of_queued {command : Command} (hagent : s'.link.agent = s.link.agent)
    (hservice : s'.service = s.service) (hchannels : s'.channels = s.channels)
    (hqueue : s'.link.queue ++ s'.link.blocked = s.link.queue ++ s.link.blocked ++ [command]) :
    s'.prospect = command.effect s.prospect := by
  rw [prospect, line, hservice, hagent, hqueue, hchannels, ← List.append_assoc,
    Command.effects_append]
  rfl

/-! ### Forsaken channels -/

private theorem Forsaken.of_same {k : Key} (h : s'.Forsaken k)
    (hsubscribers : s'.subscribers = s.subscribers)
    (hregistry : s'.link.listeners.registry = s.link.listeners.registry) : s.Forsaken k := by
  refine ⟨?_, hsubscribers ▸ h.settled⟩
  have hunwanted := h.unwanted
  rw [Listeners.wanted, hregistry] at hunwanted
  exact hunwanted

private theorem Forsaken.of_put {k : Key} (h : s'.Forsaken k) (hs : s.Seated)
    (hu : ⟨id, channel, hold⟩ ∈ s.subscribers) (hhold : hold ≠ .leaving true) (hold' : Hold)
    (hsubscribers : s'.subscribers = (s.put id hold').subscribers)
    (hl : s'.link.listeners = s.link.listeners) : s.Forsaken k := by
  refine ⟨hl ▸ h.unwanted, fun v hv hk hleaving => ?_⟩
  have hv' : v ∈ (s.put id hold').subscribers := by
    refine (hs.mem_put_iff hu).mpr (.inl ⟨hv, fun hid => ?_⟩)
    cases hs.unique hv hu hid
    exact hhold hleaving
  exact h.settled v (hsubscribers ▸ hv') hk hleaving

/-- The last listener of a channel does not leave it forsaken before its unsubscription is
queued. -/
private theorem Forsaken.of_strike {k : Key} (h : s'.Forsaken k) (hs : s.Seated)
    (hrun : s.link.isStopped = false) (hu : ⟨id, channel, hold⟩ ∈ s.subscribers)
    (hhold : hold = .failed ∨ hold = .held)
    (hsubscribers : s'.subscribers = (s.put id (.leaving (s.link.isLast channel id))).subscribers)
    (hl : s'.link = s.link.strike channel id) : s.Forsaken k := by
  have hwanted : s.link.listeners.wanted channel = true := by
    refine hs.wanted hrun hu ?_
    rcases hhold with rfl | rfl <;> rfl
  have hmem : ∀ v, v ∈ s'.subscribers ↔
      v ∈ s.subscribers ∧ v.id ≠ id ∨ v = ⟨id, channel, .leaving (s.link.isLast channel id)⟩ :=
    fun v => hsubscribers ▸ hs.mem_put_iff hu
  have hunwanted := h.unwanted
  rw [hl] at hunwanted
  have hne : k ≠ channel := by
    rintro rfl
    have hlast : s.link.isLast k id = true := by
      rw [Link.isLast, hwanted, hunwanted]
      rfl
    exact h.settled _ ((hmem _).mpr (.inr rfl)) rfl (congrArg Hold.leaving hlast)
  have hon : (s.link.strike channel id).listeners.registry.on k = s.link.listeners.registry.on k :=
    (Listeners.on_release hs.inOrder channel k id).trans (if_neg hne)
  refine ⟨?_, fun v hv hk => h.settled v ((hmem v).mpr (.inl ⟨hv, fun hid => ?_⟩)) hk⟩
  · rw [Listeners.wanted, hon] at hunwanted
    exact hunwanted
  · cases hs.unique hv hu hid
    exact hne hk.symm

private theorem Forsaken.of_without {k : Key} (h : s'.Forsaken k) (hs : s.Seated) {last : Bool}
    (hu : ⟨id, channel, .leaving last⟩ ∈ s.subscribers) (hne : last = true → k ≠ channel)
    (hsubscribers : s'.subscribers = (s.without id).subscribers)
    (hl : s'.link.listeners = s.link.listeners) : s.Forsaken k := by
  refine ⟨hl ▸ h.unwanted, fun v hv hk hleaving => ?_⟩
  have hv' : v ∈ (s.without id).subscribers := by
    refine mem_without.mpr ⟨hv, fun hid => ?_⟩
    cases hs.unique hv hu hid
    cases hleaving
    exact hne rfl hk.symm
  exact h.settled v (hsubscribers ▸ hv') hk hleaving

private theorem Forsaken.of_register {k : Key} {subscribers : List Subscriber} (channel : Key)
    (h : Forsaken { s with
      link := s.link.register channel, subscribers := s.subscribers ++ subscribers } k) :
    s.Forsaken k := by
  refine ⟨?_, fun v hv => h.settled v (List.mem_append_left _ hv)⟩
  have hunwanted := h.unwanted
  have hon : (s.link.register channel).listeners.registry.on k = _ := Registry.on_enroll _ _ _ _
  rw [Listeners.wanted, hon] at hunwanted
  rw [Listeners.wanted]
  split at hunwanted
  · rw [Bool.not_eq_false', List.isEmpty_iff] at hunwanted ⊢
    exact (List.append_eq_nil_iff.mp hunwanted).1
  · exact hunwanted

/-! ### One act -/

theorem Tight.act (h : s.Tight) (hs : s.Seated) (hc : s.Calling) (hsmooth : s.IsSmooth a)
    (hrun : (s.act a).link.isStopped = false) : (s.act a).Tight := by
  have hrun' : s.link.isStopped = false := running_of_act hrun
  have hchange := s.act_change a
  generalize s.act a = s' at hchange hrun
  have hsame : (∀ k, s'.Forsaken k → s.Forsaken k) → s'.line = s.line → s'.channels = s.channels →
      s'.Tight := by
    intro hforsaken hline hchannels k hk
    rw [prospect, hline, hchannels]
    exact h k (hforsaken k hk)
  have hqueued : ∀ command, s'.link.agent = s.link.agent → s'.service = s.service →
      s'.channels = s.channels → s'.link.queue ++ s'.link.blocked =
        s.link.queue ++ s.link.blocked ++ [command] → s'.prospect = command.effect s.prospect :=
    fun _ hagent hservice hchannels hqueue => prospect_of_queued hagent hservice hchannels hqueue
  cases hchange with
  | still a hnone hsilent hread => exact h
  | registers channel => exact hsame (fun k hk => hk.of_register channel) rfl rfl
  | requests id channel hu =>
    intro k hk hmem
    have hforsaken := hk.of_put hs hu (by simp) _ rfl (Link.listeners_send _ _)
    rw [hqueued _ (Link.agent_send _ _) rfl rfl (Link.queue_send hrun' _)] at hmem
    rcases Command.mem_effect.mp hmem with ⟨hmem, -⟩ | ⟨call, he⟩
    · exact h k hforsaken hmem
    · cases he
      have hwanted := hs.wanted hrun' hu rfl
      rw [hforsaken.unwanted] at hwanted
      cases hwanted
  | confirms id channel call hu ho =>
    exact hsame (fun k hk => hk.of_put hs hu (by simp) .held rfl rfl) rfl rfl
  | refuses id channel call hu f ho =>
    exact hsame (fun k hk => hk.of_put hs hu (by simp) .failed rfl rfl) rfl rfl
  | desists id channel hu =>
    exact hsame (fun k hk => hk.of_put hs hu (by simp) .failed rfl rfl) rfl rfl
  | givesUp id channel call hu =>
    -- If a command leaves the line, it is the subscription of the one who gives up.
    intro k hk hmem
    refine h k (hk.of_put hs hu (by simp) .failed rfl rfl) ?_
    rw [prospect, line, ← List.append_assoc, Command.effects_append] at hmem ⊢
    refine Command.mem_effects_of_filter (fun c hin hp => ?_) hmem
    have hcall : c.call? = some call := by simpa using hp
    exact ⟨call, channel, (hc.waiting _ hu call rfl).2 c (List.mem_append_right _ hin) hcall⟩
  | strikes id channel hold hu hhold =>
    exact hsame (fun k hk => hk.of_strike hs hrun' hu hhold rfl rfl) rfl rfl
  | retires id channel last hu =>
    cases last with
    | false => exact hsame (fun k hk => hk.of_without hs hu (by simp) rfl rfl) rfl rfl
    | true =>
      have hroom : s.link.hasRoom = true := by
        rcases hsmooth channel hu with hstopped | hroom
        · rw [hrun'] at hstopped
          cases hstopped
        · exact hroom
      intro k hk hmem
      rw [hqueued _ (Link.agent_retire channel s.link) rfl rfl
        (Link.queue_retire hrun' hroom channel)] at hmem
      rcases Command.mem_effect.mp hmem with ⟨hin, hne⟩ | ⟨call, he⟩
      · refine h k (hk.of_without hs hu ?_ rfl (Link.listeners_retire channel s.link)) hin
        rintro - rfl
        exact hne rfl
      · cases he
  | reads id hread => exact hsame (fun k hk => hk.of_same rfl rfl) rfl rfl
  | publishes channel payload =>
    intro k hk hmem
    rw [hqueued _ (Link.agent_send _ _) rfl rfl (Link.queue_send hrun' _)] at hmem
    exact h k (hk.of_same rfl (congrArg _ (Link.listeners_send _ _))) hmem
  | closes =>
    intro k hk hmem
    rw [hqueued _ (Link.agent_send _ _) rfl rfl (Link.queue_send hrun' _)] at hmem
    exact h k (hk.of_same rfl (congrArg _ (Link.listeners_send _ _))) hmem
  | letsGo => exact hsame (fun k hk => hk.of_same rfl rfl) rfl rfl
  | takes command rest hidle hq hcommand =>
    have hregistry := congrArg Listeners.registry
      (Link.listeners_refill { s.link with queue := rest })
    refine hsame (fun k hk => hk.of_same rfl hregistry) ?_ rfl
    rw [line_of_executing rfl (by simp), line_of_not_executing (by simp [hidle]), hq]
    exact congrArg (List.cons command) (Link.queue_refill { s.link with queue := rest })
  | quits call rest hidle hq => cases hrun
  | rests a ha hagent =>
    refine hsame (fun k hk => hk.of_same rfl rfl) ?_ rfl
    rw [line_of_not_executing (s := s) hagent]
    exact line_of_not_executing hagent
  | skips channel hagent hservice hwanted =>
    -- The channel of the unsubscription is wanted, and on others it has no effect.
    intro k hk hmem
    have hforsaken : s.Forsaken k := hk.of_same rfl rfl
    have hkept : k ∈ s.channels → k ∈ Command.effect s.channels (.unsubscribe channel) := by
      refine fun hin => Command.mem_effect.mpr (.inl ⟨hin, ?_⟩)
      rintro he
      cases he
      rw [hforsaken.unwanted] at hwanted
      cases hwanted
    refine h k hforsaken ?_
    rw [prospect, line_of_not_executing (by simp)] at hmem
    rw [prospect, line_of_executing hagent (by simp [hservice]), Command.effects_cons]
    exact Command.mem_effects_mono hkept hmem
  | sends command hagent hservice hwanted =>
    refine hsame (fun k hk => hk.of_same rfl rfl) ?_ rfl
    rw [line_of_executing (s := s) hagent (by simp [hservice])]
    exact line_of_executing hagent (by simp)
  | serves command hagent hservice r applied hdone =>
    intro k hk hmem
    refine h k (hk.of_same rfl rfl) ?_
    rw [prospect, line_of_answered rfl] at hmem
    rw [prospect, line_of_executing hagent (by simp [hservice])]
    exact hmem
  | declines command hagent hservice text =>
    -- The refused command is no unsubscription, so that without it the broker has less.
    intro k hk hmem
    have hkept : k ∈ s.channels → k ∈ command.effect s.channels := by
      refine fun hin => Command.mem_effect.mpr (.inl ⟨hin, ?_⟩)
      rintro rfl
      cases hsmooth k (asked?_of_executing hagent hservice)
    refine h k (hk.of_same rfl rfl) ?_
    rw [prospect, line_of_answered rfl] at hmem
    rw [prospect, line_of_executing hagent (by simp [hservice]), Command.effects_cons]
    exact Command.mem_effects_mono hkept hmem
  | concludes command hagent r hservice =>
    refine hsame (fun k hk => hk.of_same rfl rfl) ?_ rfl
    rw [line_of_not_executing (by simp), line_of_answered hservice]
  | delivers pub rest hidle hstream => exact hsame (fun k hk => hk.of_same rfl rfl) rfl rfl
  | ends a ha hidle => cases hrun
  | speaks pub => exact hsame (fun k hk => hk.of_same rfl rfl) rfl rfl

/-! ### Runs -/

theorem Tight.after (h : s.Tight) (hs : s.Sound) {acts : List Act} (hsmooth : s.RunsSmoothly acts)
    (hrun : (s.after acts).link.isStopped = false) : (s.after acts).Tight := by
  induction acts generalizing s with
  | nil => exact h
  | cons a acts ih =>
    have hrun' : (s.act a).link.isStopped = false := running_of_after hrun
    exact ih (h.act hs.toSeated hs.toCalling hsmooth.1 hrun') (hs.act a) hsmooth.2 hrun

theorem opening_tight : opening.Tight := by
  intro channel _ hmem
  cases hmem

/-- A link with nothing to do has every command behind it. -/
theorem IsIdle.prospect_eq (h : s.IsIdle) (hs : s.Sound) : s.prospect = s.channels := by
  have hblocked : s.link.blocked = [] := by
    by_contra hne
    have hfull := hs.orderly.full hne
    rw [h.queue] at hfull
    exact absurd hfull (by decide)
  rw [prospect, line_of_not_executing (by simp [h.agent]), h.queue, hblocked]
  rfl

/-- If the broker carries out every unsubscription that reaches it, and no unsubscription finds the
queue full, then whenever nothing is under way, the broker's connection is subscribed to the
channels that the registry lists, and these are the channels of the listeners that are held. -/
theorem idle_link_agrees_with_broker {acts : List Act} (hsmooth : opening.RunsSmoothly acts)
    (hidle : (opening.after acts).IsIdle) (channel : Key) :
    let s := opening.after acts
    (channel ∈ s.channels ↔ channel ∈ s.link.listeners.registry.map Prod.fst) ∧
      (channel ∈ s.link.listeners.registry.map Prod.fst ↔
        ∃ u ∈ s.subscribers, u.channel = channel ∧ u.hold = .held) := by
  intro s
  have hsound : s.Sound := opening_sound.after acts
  have hrun : s.link.isStopped = false := by
    rw [Link.isStopped, hidle.agent]
    rfl
  have hkeys : channel ∈ s.link.listeners.registry.map Prod.fst ↔
      s.link.listeners.registry.on channel ≠ [] := Registry.mem_keys hsound.inOrder.registry
  have hkeys_of_channels :
    channel ∈ s.channels → channel ∈ s.link.listeners.registry.map Prod.fst := by
    intro hin
    rw [hkeys]
    intro hnil
    -- Were it not listed, it would be forsaken, and the prospect is what the broker has now.
    have htight := opening_tight.after opening_sound hsmooth hrun
    refine htight channel ⟨?_, fun u hu _ hleaving => ?_⟩ ((hidle.prospect_eq hsound).symm ▸ hin)
    · rw [Listeners.wanted, hnil]
      rfl
    · rw [hidle.held u hu] at hleaving
      cases hleaving
  have hheld_of_keys : channel ∈ s.link.listeners.registry.map Prod.fst →
      ∃ u ∈ s.subscribers, u.channel = channel ∧ u.hold = .held := by
    intro hkey
    obtain ⟨id, hid⟩ := List.exists_mem_of_ne_nil _ (hkeys.mp hkey)
    obtain ⟨hold, hu, -⟩ := hsound.owned channel id hid
    exact ⟨_, hu, rfl, hidle.held _ hu⟩
  have hchannels_of_held : (∃ u ∈ s.subscribers, u.channel = channel ∧ u.hold = .held) →
      channel ∈ s.channels := by
    rintro ⟨⟨id, k, hold⟩, hu, rfl, rfl⟩
    exact (hsound.armed hrun _ hu (.taken id k)).subscribed
  exact ⟨⟨hkeys_of_channels, fun hkey => hchannels_of_held (hheld_of_keys hkey)⟩,
    ⟨hheld_of_keys, fun hheld => hkeys_of_channels (hchannels_of_held hheld)⟩⟩

/-- One listener stays, one is given up with its command in the queue, and one is refused. -/
def mixedRun : List Act :=
  [.register "c", .request 0, .draw, .send, .serve (.ok 1) true, .conclude, .resume 0,
    .register "d", .request 1, .giveUp 1, .strike 1, .retire 1, .register "e", .request 2,
    .draw, .send, .serve (.ok 1) true, .conclude, .draw, .send, .serve (.ok 0) true, .conclude,
    .draw, .send, .serve (.error "refused") false, .conclude, .resume 2, .strike 2, .retire 2,
    .draw, .send, .serve (.ok 0) true, .conclude]

theorem mixedRun_ends_in_agreement :
    let s := opening.after mixedRun
    opening.RunsSmoothly mixedRun ∧ s.IsIdle ∧
      ("c" ∈ s.channels ↔ "c" ∈ s.link.listeners.registry.map Prod.fst) ∧
      ("d" ∈ s.link.listeners.registry.map Prod.fst ↔
        ∃ u ∈ s.subscribers, u.channel = "d" ∧ u.hold = .held) := by
  have hserved : ∀ (s : System) (n : Int), s.IsSmooth (.serve (.ok n) true) := fun _ _ _ _ => rfl
  have hsmooth : opening.RunsSmoothly mixedRun :=
    ⟨trivial, trivial, trivial, trivial, hserved _ _, trivial, trivial,
      trivial, trivial, trivial, trivial, fun _ _ => .inr rfl, trivial, trivial,
      trivial, trivial, hserved _ _, trivial, trivial, trivial, hserved _ _, trivial,
      trivial, trivial, nofun, trivial, trivial, trivial, fun _ _ => .inr rfl,
      trivial, trivial, hserved _ _, trivial, trivial⟩
  have hleft : (opening.after mixedRun).subscribers = [⟨0, "c", .held⟩] := rfl
  have hidle : (opening.after mixedRun).IsIdle := by
    refine ⟨rfl, rfl, fun u hu => ?_⟩
    rw [hleft] at hu
    rw [List.mem_singleton.mp hu]
  exact ⟨hsmooth, hidle, (idle_link_agrees_with_broker hsmooth hidle "c").1,
    (idle_link_agrees_with_broker hsmooth hidle "d").2⟩

end System

end Redis

end Roaming
