import Roaming.Proofs.Confirmation
import Roaming.Proofs.Shutdown

/-!
# Subscriptions that come to nothing

A call to subscribe registers its listener before anything can fail, and whatever then makes it fail
or be given up, it strikes that listener out again. All that a subscriber does on the way leaves the
others as they are (`System.Spares`), and an entry goes by the strike of its owner only, or with all
entries when the agent stops. The unsubscription of the last listener is skipped if the channel has
a listener again, so that nobody loses the broker's subscription by it.
-/

set_option autoImplicit false
set_option relaxedAutoImplicit false

namespace Roaming

namespace Listeners

/-- Listeners that differ in one of them at most. -/
structure SameBut (id : ListenerId) (l l' : Listeners) : Prop where
  on : ∀ key, (l'.registry.on key).filter (· ≠ id) = (l.registry.on key).filter (· ≠ id)
  holds : ∀ i, i ≠ id → (l'.Holds i ↔ l.Holds i)
  inbox : ∀ i, i ≠ id → l.Holds i → l'.inbox i = l.inbox i

theorem SameBut.of_eq {id : ListenerId} {l l' : Listeners} (h : l' = l) : SameBut id l l' := by
  subst h
  exact ⟨fun _ => rfl, fun _ _ => Iff.rfl, fun _ _ _ => rfl⟩

theorem sameBut_add (l : Listeners) (key : Key) : SameBut l.next l (l.add key) where
  on k := by
    rw [add, Registry.on_enroll]
    split
    · rw [List.filter_append, List.filter_cons_of_neg (by simp), List.filter_nil, List.append_nil]
    · rfl
  holds i hne := by simp [hne]
  inbox i _ hheld := inbox_add hheld key

theorem sameBut_release {l : Listeners} (h : l.InOrder) (key : Key) (id : ListenerId) :
    SameBut id l (l.release key id) where
  on k := by
    rw [on_release h]
    split
    · rw [List.filter_filter]
      simp
    · rfl
  holds i hne := by simp [hne]
  inbox i hne _ := inbox_release hne key

/-- Of a listener that is the last of its key, nothing is left on the key without it. -/
theorem filter_on_eq_nil {l : Listeners} (h : l.InOrder) {key : Key} {id : ListenerId}
    (hne : l.registry.on key ≠ []) :
    (l.registry.on key).filter (· ≠ id) = [] ↔ l.registry.on key = [id] := by
  have hsorted := h.on_sorted key
  constructor
  · intro hnil
    have hall : ∀ i ∈ l.registry.on key, i = id := by simpa using hnil
    cases hon : l.registry.on key with
    | nil => exact absurd hon hne
    | cons i rest =>
      rw [hon] at hall hsorted
      obtain rfl := hall i List.mem_cons_self
      cases rest with
      | nil => rfl
      | cons j rest =>
        obtain rfl := hall j (List.mem_cons_of_mem _ List.mem_cons_self)
        have hlt := List.rel_of_pairwise_cons hsorted List.mem_cons_self
        exact absurd hlt (Nat.lt_irrefl _)
  · intro hon
    rw [hon]
    simp

end Listeners

namespace Redis

/-! ### What a subscriber does to the others -/

namespace Link

/-- The commands of one call. -/
def commandsOf (call : CallId) (l : Link) : List Command :=
  l.commands.filter (·.call? = some call)

theorem commandsOf_send {call : CallId} {command : Command} (h : command.call? ≠ some call)
    (l : Link) : (l.send command).commandsOf call = l.commandsOf call := by
  unfold send
  split
  · rfl
  · split <;> simp [commandsOf, commands, h]

theorem outcome?_send {call : CallId} {command : Command} (h : command.call? ≠ some call)
    (l : Link) : (l.send command).outcome? call = l.outcome? call := by
  unfold send
  split
  · have hnone : (Command.abandoned "actor command channel closed: channel closed" command).lookup
        call = none := by
      refine List.lookup_eq_none_iff.mpr fun o ho => ?_
      have hcall := call?_of_mem_abandoned ho
      refine bne_iff_ne.mpr ?_
      rintro rfl
      exact h hcall
    rw [outcome?, List.lookup_append, hnone, Option.or_none, outcome?]
  · split <;> rfl

theorem outcome?_fetched {l : Link} {call k : CallId} (h : k ≠ call) :
    (l.fetched call).outcome? k = l.outcome? k := by
  have hlookup : ∀ os : List (CallId × Except Failure Unit),
      (os.filter (·.1 ≠ call)).lookup k = os.lookup k := by
    intro os
    induction os with
    | nil => rfl
    | cons o rest ih =>
      by_cases ho : o.1 = call
      · rw [List.filter_cons_of_neg (by simpa using ho), ih, List.lookup_cons,
          beq_eq_false_iff_ne.mpr (ho ▸ h)]
      · rw [List.filter_cons_of_pos (by simpa using ho), List.lookup_cons, List.lookup_cons, ih]
  exact hlookup l.outcomes

theorem commandsOf_withdraw {l : Link} {call k : CallId} (h : k ≠ call) :
    (l.withdraw call).commandsOf k = l.commandsOf k := by
  simp only [commandsOf, commands, withdraw, List.filter_append, List.filter_filter]
  refine congrArg _ (List.filter_congr fun c _ => ?_)
  by_cases hc : c.call? = some k
  · simp [hc, h]
  · simp [hc]

theorem commandsOf_retire (call : CallId) (channel : Key) (l : Link) :
    (l.retire channel).commandsOf call = l.commandsOf call := by
  unfold retire
  split
  · simp [commandsOf, commands, Command.call?]
  · rfl

/-- A listener is the last one of its channel if nobody else is on it. -/
theorem isLast_iff {l : Link} (h : l.listeners.InOrder) {channel : Key} {id : ListenerId} :
    l.isLast channel id = true ↔ l.listeners.registry.on channel = [id] := by
  have hleft : (l.strike channel id).listeners.registry.on channel =
      (l.listeners.registry.on channel).filter (· ≠ id) := by
    rw [strike, Listeners.on_release h, if_pos rfl]
  simp only [isLast, Listeners.wanted, hleft, Bool.and_eq_true, Bool.not_eq_true',
    Bool.not_not, List.isEmpty_iff, List.isEmpty_eq_false_iff]
  constructor
  · rintro ⟨hne, hnil⟩
    exact (Listeners.filter_on_eq_nil h hne).mp hnil
  · intro hon
    have hne : l.listeners.registry.on channel ≠ [] := by simp [hon]
    exact ⟨hne, (Listeners.filter_on_eq_nil h hne).mpr hon⟩

end Link

namespace System

/-- Whose call to subscribe an act belongs to. -/
def owner? (a : Act) (s : System) : Option ListenerId :=
  match a with
  | .register _ => some s.link.listeners.next
  | .request id | .resume id | .giveUp id | .strike id | .retire id => some id
  | _ => none

/-- A system in which only one subscriber has come further: the entries of the others and what they
have not read, their calls, the agent and the broker are as before. -/
structure Spares (id : ListenerId) (s s' : System) : Prop where
  listeners : s.link.listeners.SameBut id s'.link.listeners
  subscribers : ∀ u : Subscriber, u.id ≠ id → (u ∈ s'.subscribers ↔ u ∈ s.subscribers)
  calls : ∀ call, (∀ channel, ⟨id, channel, .waiting call⟩ ∉ s.subscribers ∧
      ⟨id, channel, .waiting call⟩ ∉ s'.subscribers) →
    s'.link.outcome? call = s.link.outcome? call ∧
      s'.link.commandsOf call = s.link.commandsOf call
  agent : s'.link.agent = s.link.agent ∧ s'.service = s.service
  broker : s'.channels = s.channels ∧ s'.stream = s.stream

variable {s : System} {a : Act} {id : ListenerId}

theorem Spares.refl (id : ListenerId) (s : System) : s.Spares id s where
  listeners := .of_eq rfl
  subscribers _ _ := Iff.rfl
  calls _ _ := ⟨rfl, rfl⟩
  agent := ⟨rfl, rfl⟩
  broker := ⟨rfl, rfl⟩

theorem mem_put_of_ne {hold : Hold} {u : Subscriber} (hne : u.id ≠ id) :
    u ∈ (s.put id hold).subscribers ↔ u ∈ s.subscribers := by
  rw [mem_put]
  constructor
  · rintro (⟨hu, -⟩ | ⟨v, -, -, rfl⟩)
    · exact hu
    · exact absurd rfl hne
  · exact fun hu => .inl ⟨hu, hne⟩

/-- What a subscriber does on its way, leaves the others as they are. -/
theorem spares_of_owner (hs : s.halted.Seated) (ha : s.owner? a = some id) :
    s.Spares id (s.act a) := by
  have hchange := s.act_change a
  generalize s.act a = t at hchange
  cases hchange with
  | still => exact .refl id s
  | registers channel =>
    cases ha
    refine ⟨s.link.listeners.sameBut_add channel, fun u hne => ?_, fun _ _ => ⟨rfl, rfl⟩,
      ⟨rfl, rfl⟩, rfl, rfl⟩
    simp only [List.mem_append, List.mem_singleton, or_iff_left_iff_imp]
    rintro rfl
    exact absurd rfl hne
  | requests i channel hu =>
    cases ha
    refine ⟨.of_eq (Link.listeners_send _ _), fun u hne => mem_put_of_ne hne, fun call hown => ?_,
      ⟨Link.agent_send _ _, rfl⟩, rfl, rfl⟩
    have hne : (Command.subscribe s.link.nextCall channel).call? ≠ some call := by
      intro he
      cases he
      exact (hown channel).2 (mem_put.mpr (.inr ⟨_, hu, rfl, rfl⟩))
    exact ⟨Link.outcome?_send hne s.link, Link.commandsOf_send hne s.link⟩
  | confirms i channel k hu ho | refuses i channel k hu f ho =>
    cases ha
    refine ⟨.of_eq rfl, fun u hne => mem_put_of_ne hne, fun call hown => ?_, ⟨rfl, rfl⟩, rfl, rfl⟩
    have hne : call ≠ k := by
      rintro rfl
      exact (hown channel).1 hu
    exact ⟨Link.outcome?_fetched hne, rfl⟩
  | desists i channel hu =>
    cases ha
    exact ⟨.of_eq rfl, fun u hne => mem_put_of_ne hne, fun _ _ => ⟨rfl, rfl⟩, ⟨rfl, rfl⟩, rfl, rfl⟩
  | givesUp i channel k hu =>
    cases ha
    refine ⟨.of_eq rfl, fun u hne => mem_put_of_ne hne, fun call hown => ?_, ⟨rfl, rfl⟩, rfl, rfl⟩
    have hne : call ≠ k := by
      rintro rfl
      exact (hown channel).1 hu
    exact ⟨rfl, Link.commandsOf_withdraw hne⟩
  | strikes i channel hold hu hhold =>
    cases ha
    exact ⟨Listeners.sameBut_release hs.inOrder channel id, fun u hne => mem_put_of_ne hne,
      fun _ _ => ⟨rfl, rfl⟩, ⟨rfl, rfl⟩, rfl, rfl⟩
  | retires i channel last hu =>
    cases ha
    have hsub : ∀ u : Subscriber, u.id ≠ id →
      (u ∈ (s.without id).subscribers ↔ u ∈ s.subscribers) :=
      fun u hne => mem_without.trans (and_iff_left hne)
    cases last with
    | true =>
      refine ⟨.of_eq (Link.listeners_retire channel _), hsub, fun call _ => ⟨?_, ?_⟩,
        ⟨Link.agent_retire channel _, rfl⟩, rfl, rfl⟩
      · exact congrArg (List.lookup call) (Link.outcomes_retire channel s.link)
      · exact Link.commandsOf_retire call channel s.link
    | false => exact ⟨.of_eq rfl, hsub, fun _ _ => ⟨rfl, rfl⟩, ⟨rfl, rfl⟩, rfl, rfl⟩
  | rests a ha' | ends a ha' => rcases ha' with rfl | rfl <;> cases ha
  | _ => cases ha

/-! ### A link on which only outcomes and waiting commands change -/

theorem Sound.withLink (h : s.Sound) {l : Link} (hon : s.link.Onward l)
    (hlisteners : l.listeners = s.link.listeners) (hagent : l.agent = s.link.agent)
    (houtcomes : ∀ o ∈ l.outcomes, o ∈ s.link.outcomes) : System.Sound { s with link := l } where
  toSeated := h.toSeated.of_same rfl hlisteners fun hrun => by
    simpa only [Link.isStopped, hagent] using hrun
  orderly := h.orderly.onward hon
  waiting _ hu _ hcall := h.toCalling.waiting_of hon hu hcall
  armed hrun u hu hconfirmed := by
    have hbefore : s.Confirmed u := hconfirmed.back houtcomes fun _ _ hagent' hservice =>
      ⟨hagent.symm.trans hagent', hservice⟩
    have hrun' : s.link.isStopped = false := by
      simpa only [Link.isStopped, hagent] using hrun
    obtain ⟨hsubscribed, hkept⟩ := h.armed hrun' u hu hbefore
    refine ⟨hsubscribed, ?_⟩
    simpa only [asked?, hagent] using hkept

/-- An agent that stays, delivers a message to the listeners at most. -/
theorem listeners_of_stays (ha : a.isAgents = true) (hstays : s.departure a = none) :
    (s.act a).link.listeners = s.link.listeners ∨
      ∃ key payload, (s.act a).link.listeners = s.link.listeners.offer key payload := by
  have hchange := s.act_change a
  generalize ht : s.act a = t at hchange
  cases hchange with
  | registers | requests | confirms | refuses | desists | givesUp | strikes | retires | reads =>
    cases ha
  | publishes | closes | letsGo | serves | declines | speaks => cases ha
  | takes command rest => exact .inl (Link.listeners_refill { s.link with queue := rest })
  | quits call rest hidle hq => simp only [departure, hidle, hq, reduceCtorEq] at hstays
  | delivers pub rest => exact .inr ⟨pub.key, pub.payload, rfl⟩
  | ends a ha' hidle =>
    refine .inl (congrArg (fun x : System => x.link.listeners) (ht.symm.trans ?_))
    rcases ha' with rfl | rfl
    · exact act_streamEnd_of_stays hstays
    · exact act_desert_of_stays hstays
  | _ => exact .inl rfl

/-- A channel that is wanted while the link goes on, keeps the broker's subscription. -/
theorem Armed.withLink {channel : Key} (h : s.Armed channel) {l : Link}
    (hagent : l.agent = s.link.agent) : System.Armed { s with link := l } channel := by
  refine ⟨h.subscribed, ?_⟩
  simpa only [asked?, hagent] using h.kept

end System

namespace Tenure

variable {s : Tenure} {id : ListenerId} {channel : Key}

/-- A turn that does not make the agent leave, is one of the system or touches only outcomes and
commands that wait for room. -/
inductive Goes (s : Tenure) (e : Turn) : System → Prop where
  | acts (a : Act) (he : e = .act a) (hstays : a.isAgents = true → s.system.departure a = none) :
      Goes s e (s.system.act a)
  | links (l : Link) (he : ∀ a, e = .act a → a.isAgents = true) (hon : s.system.link.Onward l)
      (hlisteners : l.listeners = s.system.link.listeners) (hagent : l.agent = s.system.link.agent)
      (houtcomes : ∀ o ∈ l.outcomes, o ∈ s.system.link.outcomes) :
      Goes s e { s.system with link := l }

/-- A turn after which the agent serves, was one of an agent that serves. -/
theorem goes_turn {e : Turn} (h : (s.turn e).phase = .serving) :
    s.phase = .serving ∧ s.Goes e (s.turn e).system := by
  have hchange := s.turn_change e
  generalize s.turn e = t at hchange h
  have hfetched : ∀ call, ∀ o ∈ (s.system.link.fetched call).outcomes, o ∈ s.system.link.outcomes :=
    fun _ _ ho => (List.mem_filter.mp ho).1
  cases hchange with
  | still e hact => exact ⟨h, .links _ hact (.refl _) rfl rfl fun _ => id⟩
  | departs | clears | drops | finishes => cases h
  | serves a ha hserving hstays => exact ⟨hserving, .acts a rfl fun _ => hstays⟩
  | others a ha => exact ⟨h, .acts a rfl fun ha' => by rw [ha] at ha'; cases ha'⟩
  | letsIn =>
    refine ⟨h, .links _ (by simp) (Link.onward_refill _) (Link.listeners_refill _)
      (Link.agent_refill _) fun o ho => ?_⟩
    exact Link.outcomes_refill s.system.link ▸ ho
  | fetches call | hears call =>
    exact ⟨h, .links _ (by simp) (Link.onward_fetched call _) rfl rfl (hfetched call)⟩
  | claims | joins => exact ⟨h, .links _ (by simp) (.refl _) rfl rfl fun _ => id⟩
  | leaves call => exact ⟨h, .links _ (by simp) (Link.onward_withdraw call _) rfl rfl fun _ => id⟩

/-! ### Entries -/

/-- An entry goes by its owner's strike, or with all others. -/
theorem Sound.on_turn (h : s.Sound) (e : Turn)
    (hon : id ∈ s.system.link.listeners.registry.on channel) :
    id ∈ (s.turn e).system.link.listeners.registry.on channel ∨ e = .act (.strike id) ∨
      e = .clear ∧ s.phase = .leaving := by
  have horder : s.system.link.listeners.InOrder := h.placed.inOrder
  have hchange := s.turn_change e
  generalize s.turn e = t at hchange
  cases hchange with
  | departs a t ha hserving hleft => exact .inl ((System.departure_same hleft).2 ▸ hon)
  | serves a ha hserving hstays =>
    left
    rcases System.listeners_of_stays ha hstays with hsame | ⟨key, payload, hoffer⟩
    · exact hsame ▸ hon
    · exact hoffer ▸ hon
  | others a ha =>
    have ht := s.system.touches_act ha
    simp only [meanwhile]
    generalize (s.system.act a).link.listeners = l at ht
    cases ht with
    | none | takes => exact .inl hon
    | adds key =>
      left
      rw [Listeners.add, Registry.on_enroll]
      split
      · exact List.mem_append_left _ hon
      · exact hon
    | releases i key hold hu =>
      by_cases hi : i = id
      · exact .inr (.inl (by rw [hi]))
      · left
        rw [Listeners.on_release horder]
        split
        · exact List.mem_filter.mpr ⟨hon, by simpa using Ne.symm hi⟩
        · exact hon
  | clears hphase => exact .inr (.inr ⟨rfl, hphase⟩)
  | letsIn => exact .inl ((Link.listeners_refill s.system.link) ▸ hon)
  | _ => exact .inl hon

/-- A listener that is struck out. -/
structure Gone (id : ListenerId) (s : Tenure) : Prop where
  lt : id < s.system.link.listeners.next
  off : ∀ key, id ∉ s.system.link.listeners.registry.on key
  holds : ¬ s.system.link.listeners.Holds id

theorem Gone.of_listeners {t : Tenure} (h : s.Gone id)
    (hl : t.system.link.listeners = s.system.link.listeners) : t.Gone id where
  lt := hl ▸ h.lt
  off := hl ▸ h.off
  holds := hl ▸ h.holds

theorem Gone.turn (h : s.Gone id) (hs : s.Sound) (e : Turn) : (s.turn e).Gone id := by
  have horder : s.system.link.listeners.InOrder := hs.placed.inOrder
  have hchange := s.turn_change e
  generalize s.turn e = t at hchange
  cases hchange with
  | departs a t ha hserving hleft => exact h.of_listeners (System.departure_same hleft).2
  | serves a ha hserving hstays =>
    rcases System.listeners_of_stays ha hstays with hsame | ⟨key, payload, hoffer⟩
    · exact h.of_listeners hsame
    · refine ⟨?_, ?_, ?_⟩
      · exact hoffer ▸ h.lt
      · exact hoffer ▸ h.off
      · exact hoffer ▸ fun hheld => h.holds (Listeners.holds_offer.mp hheld)
  | others a ha =>
    have ht := s.system.touches_act ha
    suffices ∀ l, s.system.Touches a l → id < l.next ∧ (∀ key, id ∉ l.registry.on key) ∧
      ¬ l.Holds id by
      obtain ⟨hlt, hoff, hholds⟩ := this _ ht
      exact ⟨hlt, hoff, hholds⟩
    intro l hl
    refine ⟨Nat.lt_of_lt_of_le h.lt (System.next_le_of_touches hl), fun key hon => ?_,
      fun hheld => ?_⟩
    · -- Numbers are not given twice.
      rcases System.on_of_touches horder hl hon with hon | rfl
      · exact h.off key hon
      · exact Nat.lt_irrefl _ h.lt
    · cases hl with
      | none => exact h.holds hheld
      | adds key =>
        rcases Listeners.holds_add.mp hheld with hheld | rfl
        · exact h.holds hheld
        · exact Nat.lt_irrefl _ h.lt
      | releases i key hold hu => exact h.holds (Listeners.holds_release.mp hheld).1
      | takes i hread => exact h.holds (Listeners.holds_take.mp hheld)
  | clears hphase =>
    exact ⟨h.lt, fun key hon => (by cases hon),
      fun hheld => h.holds (Listeners.holds_disconnect.mp hheld)⟩
  | letsIn => exact h.of_listeners (Link.listeners_refill _)
  | _ => exact h.of_listeners rfl

theorem Gone.run (h : s.Gone id) (hs : s.Sound) (turns : List Turn) : (s.run turns).Gone id := by
  induction turns generalizing s with
  | nil => exact h
  | cons e turns ih => exact ih (h.turn hs e) (hs.turn e)

/-! ### Calls to subscribe -/

/-- How far a call to subscribe that has not returned comes by a turn. -/
inductive Fares (s : Tenure) (id : ListenerId) (channel : Key) : Turn → Hold → Hold → Prop where
  | stays (e : Turn) (hold : Hold) (hpending : hold.isPending = true)
      (hstrike : hold = .failed → e ≠ .act (.strike id)) : Fares s id channel e hold hold
  | requests : Fares s id channel (.act (.request id)) .registered (.waiting s.system.link.nextCall)
  | succeeds (call : CallId) (ho : s.system.link.outcome? call = some (.ok ())) :
      Fares s id channel (.act (.resume id)) (.waiting call) .held
  | fails (call : CallId) (f : Failure) (ho : s.system.link.outcome? call = some (.error f)) :
      Fares s id channel (.act (.resume id)) (.waiting call) .failed
  | givesUp (hold : Hold) (hhold : hold = .registered ∨ ∃ call, hold = .waiting call) :
      Fares s id channel (.act (.giveUp id)) hold .failed
  | strikes : Fares s id channel (.act (.strike id)) .failed
      (.leaving (s.system.link.isLast channel id))

variable {hold : Hold}

theorem system_turn {a : Act} (ha : a.isAgents = false) :
    (s.turn (.act a)).system = s.system.act a := by
  simp only [turn, ha, Bool.false_eq_true, if_false, meanwhile]

/-- Whoever has failed, strikes its listener out when it can. -/
theorem Sound.strike (h : s.Sound) (hu : ⟨id, channel, .failed⟩ ∈ s.system.subscribers) :
    (s.turn (.act (.strike id))).system =
      { s.system.put id (.leaving (s.system.link.isLast channel id)) with
        link := s.system.link.strike channel id } := by
  have hfind : s.system.subscriber? id = _ := h.placed.subscriber?_eq hu
  simp only [Tenure.turn, Act.isAgents, Tenure.meanwhile, System.act, hfind, true_or, if_true]
  rfl

private theorem Sound.fares_meanwhile (h : s.Sound) (a : Act)
    (hu : ⟨id, channel, hold⟩ ∈ s.system.subscribers) (hpending : hold.isPending = true)
    (hstrike : hold = .failed → a ≠ .strike id) :
    ∃ hold', ⟨id, channel, hold'⟩ ∈ (s.system.act a).subscribers ∧
      s.Fares id channel (.act a) hold hold' := by
  have hstays : s.Fares id channel (.act a) hold hold :=
    .stays _ _ hpending fun hfailed he => hstrike hfailed (Turn.act.inj he)
  -- Whoever is moved on, is either somebody else or this one.
  have hput : ∀ {i : ListenerId} {k : Key} {earlier later : Hold},
      ⟨i, k, earlier⟩ ∈ s.system.subscribers →
      (i = id → k = channel → earlier = hold → s.Fares id channel (.act a) hold later) →
      ∃ hold', ⟨id, channel, hold'⟩ ∈ (s.system.put i later).subscribers ∧
        s.Fares id channel (.act a) hold hold' := by
    intro i k earlier later hv hfares
    by_cases hi : i = id
    · subst hi
      cases h.placed.unique hv hu rfl
      exact ⟨later, System.mem_put.mpr (.inr ⟨_, hu, rfl, rfl⟩), hfares rfl rfl rfl⟩
    · exact ⟨hold, (System.mem_put_of_ne (Ne.symm hi)).mpr hu, hstays⟩
  have hchange := s.system.act_change a
  generalize s.system.act a = t at hchange
  cases hchange with
  | registers k => exact ⟨hold, List.mem_append_left _ hu, hstays⟩
  | requests i k hv => exact hput hv fun hi _ he => he ▸ hi ▸ .requests
  | confirms i k call hv ho => exact hput hv fun hi _ he => he ▸ hi ▸ .succeeds call ho
  | refuses i k call hv f ho => exact hput hv fun hi _ he => he ▸ hi ▸ .fails call f ho
  | desists i k hv => exact hput hv fun hi _ he => he ▸ hi ▸ .givesUp _ (.inl rfl)
  | givesUp i k call hv => exact hput hv fun hi _ he => he ▸ hi ▸ .givesUp _ (.inr ⟨call, rfl⟩)
  | strikes i k earlier hv hearlier =>
    refine hput hv fun hi _ he => ?_
    subst he
    rcases hearlier with he | he
    · exact absurd (hi ▸ rfl) (hstrike he)
    · rw [he] at hpending
      cases hpending
  | retires i k last hv =>
    refine ⟨hold, System.mem_without.mpr ⟨hu, ?_⟩, hstays⟩
    rintro rfl
    cases h.placed.unique hv hu rfl
    cases hpending
  | _ => exact ⟨hold, hu, hstays⟩

theorem Sound.fares_turn (h : s.Sound) (e : Turn) (hu : ⟨id, channel, hold⟩ ∈ s.system.subscribers)
    (hpending : hold.isPending = true) :
    ∃ hold', ⟨id, channel, hold'⟩ ∈ (s.turn e).system.subscribers ∧
      s.Fares id channel e hold hold' := by
  by_cases hstrike : hold = .failed ∧ e = .act (.strike id)
  · obtain ⟨rfl, rfl⟩ := hstrike
    refine ⟨_, ?_, .strikes⟩
    rw [h.strike hu]
    exact System.mem_put.mpr (.inr ⟨_, hu, rfl, rfl⟩)
  · have hnot : hold = .failed → e ≠ .act (.strike id) := fun hfailed he => hstrike ⟨hfailed, he⟩
    have hsame : ∀ {t : Tenure}, t.system.subscribers = s.system.subscribers →
        ∃ hold', ⟨id, channel, hold'⟩ ∈ t.system.subscribers ∧ s.Fares id channel e hold hold' :=
      fun hsub => ⟨hold, hsub ▸ hu, .stays e hold hpending hnot⟩
    have hchange := s.turn_change e
    generalize s.turn e = t at hchange
    cases hchange with
    | departs a t ha hserving hleft => exact hsame (System.departure_same hleft).1
    | serves a ha => exact hsame (System.subscribers_of_agents ha)
    | others a ha =>
      exact h.fares_meanwhile a hu hpending fun hfailed he => hnot hfailed (congrArg Turn.act he)
    | _ => exact hsame rfl

/-- Whoever has failed, stays so until it strikes its listener out. -/
theorem Sound.failed_run (h : s.Sound) (turns : List Turn)
    (hu : ⟨id, channel, .failed⟩ ∈ s.system.subscribers) (hstrike : .act (.strike id) ∉ turns) :
    ⟨id, channel, .failed⟩ ∈ (s.run turns).system.subscribers := by
  induction turns generalizing s with
  | nil => exact hu
  | cons e turns ih =>
    obtain ⟨hold', hu', hfares⟩ := h.fares_turn e hu rfl
    refine ih (h.turn e) ?_ fun hmem => hstrike (List.mem_cons_of_mem _ hmem)
    cases hfares with
    | stays => exact hu'
    | givesUp => exact hu'
    | strikes => exact absurd List.mem_cons_self hstrike

/-- The listener of whoever has failed, is gone for good once it is struck out. -/
theorem Sound.gone_of_strike (h : s.Sound) (hu : ⟨id, channel, .failed⟩ ∈ s.system.subscribers) :
    (s.turn (.act (.strike id))).Gone id := by
  have horder : s.system.link.listeners.InOrder := h.placed.inOrder
  have hlt := h.placed.ids_lt _ hu
  refine ⟨?_, fun key => ?_, ?_⟩ <;> rw [h.strike hu]
  · exact hlt
  · intro hon
    have hon' : id ∈ (s.system.link.listeners.release channel id).registry.on key := hon
    rw [Listeners.on_release horder] at hon'
    split at hon'
    · simp at hon'
    · next hk => exact hk (h.placed.channel_eq hu hon')
  · intro hheld
    exact (Listeners.holds_release.mp hheld).2 rfl

private theorem Sound.leaving_turn (h : s.Sound) {last : Bool} {e : Turn}
    (hu : ⟨id, channel, .leaving last⟩ ∈ s.system.subscribers) (hretire : e ≠ .act (.retire id)) :
    ⟨id, channel, .leaving last⟩ ∈ (s.turn e).system.subscribers := by
  have hput : ∀ {i : ListenerId} {k : Key} {earlier later : Hold},
      ⟨i, k, earlier⟩ ∈ s.system.subscribers → earlier ≠ .leaving last →
      ⟨id, channel, .leaving last⟩ ∈ (s.system.put i later).subscribers := by
    intro i k earlier later hv hne
    refine (System.mem_put_of_ne ?_).mpr hu
    rintro rfl
    exact hne (congrArg Subscriber.hold (h.placed.unique hv hu rfl))
  have hsame : ∀ {t : Tenure}, t.system.subscribers = s.system.subscribers →
      ⟨id, channel, .leaving last⟩ ∈ t.system.subscribers := fun hsub => hsub ▸ hu
  have hchange := s.turn_change e
  generalize s.turn e = t at hchange
  cases hchange with
  | departs a t ha hserving hleft => exact hsame (System.departure_same hleft).1
  | serves a ha => exact hsame (System.subscribers_of_agents ha)
  | others a ha =>
    simp only [meanwhile]
    have hact := s.system.act_change a
    generalize s.system.act a = t at hact
    cases hact with
    | registers k => exact List.mem_append_left _ hu
    | requests i k hv | confirms i k call hv | refuses i k call hv | desists i k hv
    | givesUp i k call hv => exact hput hv (by simp)
    | strikes i k earlier hv hearlier =>
      refine hput hv ?_
      rcases hearlier with rfl | rfl <;> simp
    | retires i k last hv =>
      refine System.mem_without.mpr ⟨hu, ?_⟩
      rintro rfl
      exact hretire rfl
    | _ => exact hu
  | _ => exact hu

theorem Sound.leaving_run (h : s.Sound) {last : Bool} (turns : List Turn)
    (hu : ⟨id, channel, .leaving last⟩ ∈ s.system.subscribers)
    (hretire : .act (.retire id) ∉ turns) :
    ⟨id, channel, .leaving last⟩ ∈ (s.run turns).system.subscribers := by
  induction turns generalizing s with
  | nil => exact hu
  | cons e turns ih =>
    have hne : e ≠ .act (.retire id) := fun he => hretire (he ▸ List.mem_cons_self)
    exact ih (h.turn e) (h.leaving_turn hu hne) fun hmem => hretire (List.mem_cons_of_mem _ hmem)

theorem Sound.queue_of_retire (h : s.Sound) {last : Bool}
    (hu : ⟨id, channel, .leaving last⟩ ∈ s.system.subscribers) :
    (s.turn (.act (.retire id))).system.link.queue = s.system.link.queue ++
      if last = true ∧ s.system.link.isStopped = false ∧ s.system.link.hasRoom = true
      then [.unsubscribe channel] else [] := by
  have hfind : s.system.subscriber? id = _ := h.placed.subscriber?_eq hu
  simp only [Tenure.turn, Act.isAgents, Tenure.meanwhile, System.act, hfind, Bool.false_eq_true,
    if_false]
  cases last with
  | false => simp
  | true =>
    rw [if_pos rfl, Link.retire]
    by_cases hroom : s.system.link.isStopped = false ∧ s.system.link.hasRoom = true
    · simp [hroom]
    · have hnot : (!s.system.link.isStopped && s.system.link.hasRoom) = false := by
        simpa using hroom
      simp only [hnot, hroom, and_false, if_false, Bool.false_eq_true, List.append_nil]

/-! ### The subscriptions of the broker -/

theorem serving_turn (h : s.phase = .serving → s.system.Sound) {e : Turn}
    (hserving : (s.turn e).phase = .serving) : (s.turn e).system.Sound := by
  obtain ⟨hbefore, hgoes⟩ := goes_turn hserving
  generalize (s.turn e).system = t at hgoes
  cases hgoes with
  | acts a => exact (h hbefore).act a
  | links l he hon hlisteners hagent houtcomes =>
    exact (h hbefore).withLink hon hlisteners hagent houtcomes

theorem serving_of_run {turns : List Turn} (h : (s.run turns).phase = .serving) :
    s.phase = .serving := by
  induction turns generalizing s with
  | nil => exact h
  | cons e turns ih => exact (goes_turn (ih h)).1

theorem serving_run (turns : List Turn) (h : s.phase = .serving → s.system.Sound) :
    (s.run turns).phase = .serving → (s.run turns).system.Sound := by
  induction turns generalizing s with
  | nil => exact h
  | cons e turns ih => exact ih (serving_turn h)

/-- The broker stays subscribed to a channel as long as a listener stays on it. -/
theorem Sound.armed_run (h : s.Sound) {turns : List Turn}
    (hserving : (s.run turns).phase = .serving)
    (hon : id ∈ s.system.link.listeners.registry.on channel) (harmed : s.system.Armed channel)
    (hstrike : .act (.strike id) ∉ turns) : (s.run turns).system.Armed channel := by
  induction turns generalizing s with
  | nil => exact harmed
  | cons e turns ih =>
    obtain ⟨hbefore, hgoes⟩ := goes_turn (serving_of_run hserving)
    refine ih (h.turn e) hserving ?_ ?_ fun hmem => hstrike (List.mem_cons_of_mem _ hmem)
    · rcases h.on_turn e hon with hon | rfl | ⟨rfl, hleaving⟩
      · exact hon
      · exact absurd List.mem_cons_self hstrike
      · rw [hbefore] at hleaving
        cases hleaving
    · have hwanted : s.system.link.listeners.wanted channel = true := by
        simpa [Listeners.wanted] using List.ne_nil_of_mem hon
      generalize (s.turn e).system = t at hgoes
      cases hgoes with
      | acts a => exact harmed.act hwanted a
      | links l he hon hlisteners hagent => exact harmed.withLink hagent

/-- What is left of a call to subscribe that has come to nothing. -/
structure LeavesOthers (s : Tenure) : Prop where
  /-- Whatever a subscriber does, others are not touched by it. -/
  spares : ∀ a id, s.system.owner? a = some id → s.system.Spares id (s.turn (.act a)).system
  /-- An entry goes by its owner's strike only, or with all others when the agent stops. -/
  entries : ∀ e id channel, id ∈ s.system.link.listeners.registry.on channel →
    id ∈ (s.turn e).system.link.listeners.registry.on channel ∨ e = .act (.strike id) ∨
      e = .clear ∧ s.phase = .leaving
  /-- A call that has not returned is as it was or goes on. -/
  fares : ∀ e id channel hold, ⟨id, channel, hold⟩ ∈ s.system.subscribers →
    hold.isPending = true →
    ∃ hold', ⟨id, channel, hold'⟩ ∈ (s.turn e).system.subscribers ∧ s.Fares id channel e hold hold'
  /-- A call that has failed strikes its listener out, however late, and for good. -/
  gone : ∀ id channel, ⟨id, channel, .failed⟩ ∈ s.system.subscribers →
    ∀ between later, .act (.strike id) ∉ between →
      ((s.run between).turn (.act (.strike id))).Gone id ∧
        (((s.run between).turn (.act (.strike id))).run later).Gone id
  /-- It asks for nothing but to unsubscribe from a channel on which it was the last, and for that
  only if there is room. -/
  unsubscribes : ∀ id channel, ⟨id, channel, .failed⟩ ∈ s.system.subscribers →
    (s.turn (.act (.strike id))).system.link.queue = s.system.link.queue ∧
    ∀ between, .act (.retire id) ∉ between →
      let t := (s.turn (.act (.strike id))).run between
      (t.turn (.act (.retire id))).system.link.queue = t.system.link.queue ++
        if s.system.link.listeners.registry.on channel = [id] ∧ t.system.link.isStopped = false ∧
          t.system.link.hasRoom = true
        then [.unsubscribe channel] else []
  /-- While the agent serves, whoever was told of the broker's subscription has it, -/
  armed : s.phase = .serving → ∀ u ∈ s.system.subscribers, s.system.Confirmed u →
    u.id ∈ s.system.link.listeners.registry.on u.channel ∧ s.system.Armed u.channel
  /-- and whoever is on a channel keeps the subscription that the broker has, told of it or not. -/
  keeps : ∀ id channel more, (s.run more).phase = .serving →
    id ∈ s.system.link.listeners.registry.on channel → s.system.Armed channel →
    .act (.strike id) ∉ more → (s.run more).system.Armed channel

/-- However a call to subscribe comes to nothing, it leaves the other listeners as they are. -/
theorem failed_subscription_leaves_the_others (turns : List Turn) :
    LeavesOthers (opening.run turns) := by
  have hs : (opening.run turns).Sound := opening_sound.run turns
  have hopening : opening.phase = .serving → opening.system.Sound := fun _ => System.opening_sound
  have hserving := serving_run turns hopening
  generalize opening.run turns = s at hs hserving
  refine ⟨fun a id ha => ?_, fun e id channel => hs.on_turn e,
    fun e id channel hold => hs.fares_turn e,
    fun id channel hu between later hstrike => ?_, fun id channel hu =>
      ⟨?_, fun between hretire => ?_⟩,
    fun hphase u hu hconfirmed => ⟨?_, ?_⟩, fun id channel more => hs.armed_run⟩
  · have hagent : a.isAgents = false := by
      cases a <;> first | rfl | cases ha
    rw [system_turn hagent]
    exact System.spares_of_owner hs.placed ha
  · have hfailed := hs.failed_run between hu hstrike
    have hgone := (hs.run between).gone_of_strike hfailed
    exact ⟨hgone, hgone.run ((hs.run between).turn _) later⟩
  · rw [hs.strike hu]
    rfl
  · have horder : s.system.link.listeners.InOrder := hs.placed.inOrder
    have hstruck := hs.turn (.act (.strike id))
    have hleaving : ⟨id, channel, .leaving (s.system.link.isLast channel id)⟩ ∈
        (s.turn (.act (.strike id))).system.subscribers := by
      rw [hs.strike hu]
      exact System.mem_put.mpr (.inr ⟨_, hu, rfl, rfl⟩)
    have hqueue :=
      (hstruck.run between).queue_of_retire (hstruck.leaving_run between hleaving hretire)
    simpa only [Link.isLast_iff horder] using hqueue
  · have hrun : s.system.link.isStopped = false := by
      rw [hs.stopped, hphase]
      rfl
    exact (hs.seated hphase).entered hrun u hu hconfirmed.isEntered
  · have hrun : s.system.link.isStopped = false := by
      rw [hs.stopped, hphase]
      rfl
    exact (hserving hphase).armed hrun u hu hconfirmed

/-- The broker refuses a subscription, whose channel is wanted again before its unsubscription is
taken. -/
example :
    let s := opening.run [.act (.register "c"), .act (.request 0), .act .draw, .act .send,
      .act (.serve (.error "no") false), .act .conclude, .act (.resume 0), .act (.strike 0),
      .act (.retire 0), .act (.register "c")]
    s.system.link.queue = [.unsubscribe "c"] ∧
      s.system.link.listeners.registry.on "c" = [1] ∧
      (s.run [.act .draw, .act .send]).system.link.queue = [] ∧
      (s.run [.act .draw, .act .send]).system.asked? = none :=
  ⟨rfl, rfl, rfl, rfl⟩

end Tenure

end Redis

end Roaming
