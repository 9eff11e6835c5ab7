import Roaming.Proofs.Changes

/-!
# Subscribers of a link

The listeners of a link are those of its subscribers who have not been struck out, until the agent
stops (`System.Seated`). A subscriber moves on in one direction only (`System.Moves`), so that
nobody gets a listener back. The acts of a subscriber make up the calls that a link offers.
-/

set_option autoImplicit false
set_option relaxedAutoImplicit false

namespace Roaming.Redis

/-! ### Who has a listener -/

/-- Whether the listener of a subscriber is not struck out. -/
def Hold.isEntered : Hold → Bool
  | .leaving _ => false
  | _ => true

/-- A subscriber as far as its listener goes. -/
def Subscriber.seat (u : Subscriber) : ListenerId × Key × Bool :=
    (u.id, u.channel, u.hold.isEntered)

namespace System

/-- What every act keeps up about the listeners of a link and its subscribers. -/
structure Seated (s : System) : Prop where
  inOrder : s.link.listeners.InOrder
  ids : (s.subscribers.map (·.id)).Nodup
  ids_lt : ∀ u ∈ s.subscribers, u.id < s.link.listeners.next
  entered : s.link.isStopped = false → ∀ u ∈ s.subscribers, u.hold.isEntered = true →
    u.id ∈ s.link.listeners.registry.on u.channel
  owned : ∀ channel, ∀ id ∈ s.link.listeners.registry.on channel,
    ∃ hold, ⟨id, channel, hold⟩ ∈ s.subscribers ∧ hold.isEntered = true

variable {s s' : System} {id : ListenerId} {channel : Key} {hold hold' : Hold}

theorem Seated.unique (h : s.Seated) {u v : Subscriber} (hu : u ∈ s.subscribers)
    (hv : v ∈ s.subscribers) (hid : u.id = v.id) : u = v :=
  List.inj_on_of_nodup_map h.ids hu hv hid

theorem mem_put {u : Subscriber} : u ∈ (s.put id hold).subscribers ↔
    u ∈ s.subscribers ∧ u.id ≠ id ∨ ∃ v ∈ s.subscribers, v.id = id ∧ u = ⟨id, v.channel, hold⟩ := by
  simp only [put, List.mem_map]
  constructor
  · rintro ⟨v, hv, rfl⟩
    by_cases hid : v.id = id
    · rw [if_pos hid]
      exact .inr ⟨v, hv, hid, by rw [← hid]⟩
    · rw [if_neg hid]
      exact .inl ⟨hv, hid⟩
  · rintro (⟨hu, hid⟩ | ⟨v, hv, hid, rfl⟩)
    · exact ⟨u, hu, if_neg hid⟩
    · exact ⟨v, hv, by rw [if_pos hid, ← hid]⟩

theorem mem_without {u : Subscriber} :
    u ∈ (s.without id).subscribers ↔ u ∈ s.subscribers ∧ u.id ≠ id := by
  simp [without]

/-- A subscriber that is found is the only one with its number. -/
theorem Seated.mem_put_iff (h : s.Seated) (hu : ⟨id, channel, hold⟩ ∈ s.subscribers)
    {u : Subscriber} : u ∈ (s.put id hold').subscribers ↔
      u ∈ s.subscribers ∧ u.id ≠ id ∨ u = ⟨id, channel, hold'⟩ := by
  rw [mem_put]
  refine or_congr_right ⟨?_, fun he => ⟨_, hu, rfl, he⟩⟩
  rintro ⟨v, hv, hid, rfl⟩
  rw [h.unique hv hu hid]

private theorem ids_put (s : System) (id : ListenerId) (hold : Hold) :
    (s.put id hold).subscribers.map (·.id) = s.subscribers.map (·.id) := by
  rw [put, List.map_map]
  refine List.map_congr_left fun u _ => ?_
  rw [Function.comp_apply]
  split <;> rfl

/-- Who has a listener does not depend on how far the others have come. -/
private theorem Seated.of_seats (h : s.Seated)
    (hseats : s'.subscribers.map Subscriber.seat = s.subscribers.map Subscriber.seat)
    (horder : s'.link.listeners.InOrder)
    (hregistry : s'.link.listeners.registry = s.link.listeners.registry)
    (hnext : s'.link.listeners.next = s.link.listeners.next)
    (hstopped : s'.link.isStopped = false → s.link.isStopped = false) : s'.Seated := by
  have hids : s'.subscribers.map (·.id) = s.subscribers.map (·.id) := by
    have hfst := congrArg (List.map Prod.fst) hseats
    rw [List.map_map, List.map_map] at hfst
    exact hfst
  have hmem : ∀ {x y : System}, x.subscribers.map Subscriber.seat =
      y.subscribers.map Subscriber.seat →
      ∀ u ∈ x.subscribers, ∃ v ∈ y.subscribers, v.seat = u.seat := by
    intro x y hxy u hu
    have hseat : u.seat ∈ y.subscribers.map Subscriber.seat := hxy ▸ List.mem_map_of_mem hu
    exact List.mem_map.mp hseat
  refine ⟨horder, hids ▸ h.ids, fun u hu => ?_, fun hrun u hu hentered => ?_,
    fun channel id hon => ?_⟩
  · obtain ⟨v, hv, hseat⟩ := hmem hseats u hu
    obtain ⟨hid, -⟩ := Prod.mk.inj hseat
    rw [hnext, ← hid]
    exact h.ids_lt v hv
  · obtain ⟨v, hv, hseat⟩ := hmem hseats u hu
    obtain ⟨hid, hrest⟩ := Prod.mk.inj hseat
    obtain ⟨hchannel, hhold⟩ := Prod.mk.inj hrest
    rw [hregistry, ← hid, ← hchannel]
    exact h.entered (hstopped hrun) v hv (hhold.trans hentered)
  · rw [hregistry] at hon
    obtain ⟨hold, hu, hentered⟩ := h.owned channel id hon
    obtain ⟨v, hv, hseat⟩ := hmem hseats.symm _ hu
    obtain ⟨hid, hrest⟩ := Prod.mk.inj hseat
    obtain ⟨hchannel, hhold⟩ := Prod.mk.inj hrest
    refine ⟨v.hold, ?_, hhold.trans hentered⟩
    obtain ⟨i, c, hold'⟩ := v
    cases hid
    cases hchannel
    exact hv

private theorem Seated.seats_put (h : s.Seated) (hu : ⟨id, channel, hold⟩ ∈ s.subscribers)
    (hentered : hold'.isEntered = hold.isEntered) :
    (s.put id hold').subscribers.map Subscriber.seat = s.subscribers.map Subscriber.seat := by
  rw [put, List.map_map]
  refine List.map_congr_left fun u hmem => ?_
  rw [Function.comp_apply]
  split
  · next hid =>
    rw [h.unique hmem hu hid]
    exact congrArg (fun b => (id, channel, b)) hentered
  · rfl

private theorem Seated.registers (h : s.Seated) (channel : Key) : Seated { s with
    link := s.link.register channel
    subscribers := s.subscribers ++ [⟨s.link.listeners.next, channel, .registered⟩] } := by
  have hon : ∀ k, ((s.link.register channel).listeners.registry.on k) =
      if k = channel then s.link.listeners.registry.on k ++ [s.link.listeners.next]
      else s.link.listeners.registry.on k :=
    fun k => Registry.on_enroll _ _ _ _
  refine ⟨h.inOrder.add channel, ?_, fun u hu => ?_, fun hrun u hu hentered => ?_,
    fun k id hid => ?_⟩
  · rw [List.map_append, List.nodup_append]
    refine ⟨h.ids, List.nodup_singleton _, fun a ha b hb => ?_⟩
    obtain ⟨u, hu, rfl⟩ := List.mem_map.mp ha
    rw [List.mem_singleton.mp hb]
    exact Nat.ne_of_lt (h.ids_lt u hu)
  · rcases List.mem_append.mp hu with hu | hu
    · exact Nat.lt_succ_of_lt (h.ids_lt u hu)
    · rw [List.mem_singleton.mp hu]
      exact Nat.lt_succ_self _
  · rw [hon]
    rcases List.mem_append.mp hu with hu | hu
    · have hmem := h.entered hrun u hu hentered
      split
      · exact List.mem_append_left _ hmem
      · exact hmem
    · rw [List.mem_singleton.mp hu, if_pos rfl]
      exact List.mem_append_right _ (List.mem_singleton_self _)
  · rw [hon] at hid
    by_cases hk : k = channel
    · rw [if_pos hk] at hid
      rcases List.mem_append.mp hid with hid | hid
      · obtain ⟨hold, hu, hentered⟩ := h.owned k id hid
        exact ⟨hold, List.mem_append_left _ hu, hentered⟩
      · rw [List.mem_singleton.mp hid, hk]
        exact ⟨.registered, List.mem_append_right _ (List.mem_singleton_self _), rfl⟩
    · rw [if_neg hk] at hid
      obtain ⟨hold, hu, hentered⟩ := h.owned k id hid
      exact ⟨hold, List.mem_append_left _ hu, hentered⟩

/-- A listener is on the channel of its subscriber only. -/
theorem Seated.channel_eq (h : s.Seated) (hu : ⟨id, channel, hold⟩ ∈ s.subscribers) {k : Key}
    (hon : id ∈ s.link.listeners.registry.on k) : k = channel := by
  obtain ⟨hold', hv, -⟩ := h.owned k id hon
  have hsame := h.unique hv hu rfl
  exact congrArg Subscriber.channel hsame

private theorem Seated.strikes (h : s.Seated) (hu : ⟨id, channel, hold⟩ ∈ s.subscribers)
    (last : Bool) :
    Seated { s.put id (.leaving last) with link := s.link.strike channel id } := by
  have hon : ∀ k, ((s.link.strike channel id).listeners.registry.on k) =
      if k = channel then (s.link.listeners.registry.on k).filter (· ≠ id)
      else s.link.listeners.registry.on k :=
    fun k => Listeners.on_release h.inOrder channel k id
  refine ⟨h.inOrder.release fun k hk => h.channel_eq hu hk, ?_, fun u hmem => ?_,
    fun hrun u hmem hentered => ?_, fun k i hi => ?_⟩
  · exact (ids_put s id _).symm ▸ h.ids
  · rcases (h.mem_put_iff hu).mp hmem with ⟨hmem, -⟩ | rfl
    · exact h.ids_lt u hmem
    · have hlt := h.ids_lt _ hu
      exact hlt
  · rcases (h.mem_put_iff hu).mp hmem with ⟨hmem, hne⟩ | rfl
    · rw [hon]
      have hmem' := h.entered hrun u hmem hentered
      split
      · exact List.mem_filter.mpr ⟨hmem', by simpa using hne⟩
      · exact hmem'
    · cases hentered
  · -- Whoever is still registered is another one, also on other channels.
    have hboth : i ∈ s.link.listeners.registry.on k ∧ i ≠ id := by
      rw [hon] at hi
      by_cases hk : k = channel
      · rw [if_pos hk] at hi
        obtain ⟨hi, hne⟩ := List.mem_filter.mp hi
        exact ⟨hi, by simpa using hne⟩
      · rw [if_neg hk] at hi
        exact ⟨hi, fun he => hk (h.channel_eq hu (he ▸ hi))⟩
    obtain ⟨hold', hv, hentered⟩ := h.owned k i hboth.1
    exact ⟨hold', (h.mem_put_iff hu).mpr (.inl ⟨hv, hboth.2⟩), hentered⟩

private theorem Seated.retires (h : s.Seated) {last : Bool}
    (hu : ⟨id, channel, .leaving last⟩ ∈ s.subscribers) {l : Link}
    (hl : l.listeners = s.link.listeners) (hstopped : l.isStopped = s.link.isStopped) :
    Seated { s.without id with link := l } := by
  refine ⟨hl ▸ h.inOrder, h.ids.sublist (List.filter_sublist.map _), fun u hmem => ?_,
    fun hrun u hmem hentered => ?_, fun k i hi => ?_⟩
  · rw [hl]
    exact h.ids_lt u (mem_without.mp hmem).1
  · rw [hl]
    exact h.entered (hstopped ▸ hrun) u (mem_without.mp hmem).1 hentered
  · rw [hl] at hi
    obtain ⟨hold, hv, hentered⟩ := h.owned k i hi
    refine ⟨hold, mem_without.mpr ⟨hv, ?_⟩, hentered⟩
    rintro rfl
    have hsame := congrArg Subscriber.hold (h.unique hv hu rfl)
    cases hsame
    cases hentered

theorem Seated.stops (h : s.Seated) {l : Link} (hl : l.listeners = s.link.listeners.disconnect)
    (hstopped : l.isStopped = true) (service : Service) :
    Seated { s with link := l, service } := by
  refine ⟨hl ▸ h.inOrder.disconnect, h.ids, fun u hu => ?_, fun hrun => ?_, fun k i hi => ?_⟩
  · rw [hl]
    exact h.ids_lt u hu
  · rw [hstopped] at hrun
    cases hrun
  · rw [hl] at hi
    cases hi

theorem Seated.act (h : s.Seated) (a : Act) : (s.act a).Seated := by
  have hrun : (s.act a).link.isStopped = false → s.link.isStopped = false := running_of_act
  have hchange := s.act_change a
  generalize s.act a = s' at hchange hrun
  have hsame :
      s'.subscribers = s.subscribers → s'.link.listeners = s.link.listeners → s'.Seated := by
    intro hsubscribers hl
    refine h.of_seats ?_ (hl ▸ h.inOrder) ?_ ?_ hrun
    · rw [hsubscribers]
    · rw [hl]
    · rw [hl]
  have hput : ∀ {id : ListenerId} {channel : Key} {hold : Hold} (hold' : Hold),
      ⟨id, channel, hold⟩ ∈ s.subscribers → hold'.isEntered = hold.isEntered →
      s'.subscribers = (s.put id hold').subscribers → s'.link.listeners = s.link.listeners →
      s'.Seated := by
    intro id channel hold hold' hu hentered hsubscribers hl
    refine h.of_seats ?_ (hl ▸ h.inOrder) ?_ ?_ hrun
    · rw [hsubscribers]
      exact h.seats_put hu hentered
    · rw [hl]
    · rw [hl]
  cases hchange with
  | still a hnone hsilent hread => exact h
  | registers channel => exact h.registers channel
  -- Most acts leave the listeners alone and move a subscriber on with its listener.
  | requests id channel hu => exact hput (.waiting _) hu rfl rfl (Link.listeners_send _ _)
  | confirms id channel call hu ho => exact hput .held hu rfl rfl rfl
  | refuses id channel call hu f ho => exact hput .failed hu rfl rfl rfl
  | desists id channel hu => exact hput .failed hu rfl rfl rfl
  | givesUp id channel call hu => exact hput .failed hu rfl rfl rfl
  | strikes id channel hold hu hhold => exact h.strikes hu _
  | retires id channel last hu =>
    refine h.retires hu ?_ ?_
    · split
      · exact Link.listeners_retire _ _
      · rfl
    · split
      · exact Link.isStopped_retire _ _
      · rfl
  | reads id hread => exact h.of_seats rfl (h.inOrder.take id) rfl rfl hrun
  | publishes channel payload => exact hsame rfl (Link.listeners_send _ _)
  | closes => exact hsame rfl (Link.listeners_send _ _)
  | letsGo => exact hsame rfl rfl
  | takes command rest hidle hq hcommand =>
    exact hsame rfl (Link.listeners_refill { s.link with queue := rest })
  | quits call rest hidle hq => exact h.stops rfl rfl .unsent
  | rests a ha hagent => exact hsame rfl rfl
  | skips channel hagent hservice hwanted => exact hsame rfl rfl
  | sends command hagent hservice hwanted => exact hsame rfl rfl
  | serves command hagent hservice r applied hdone => exact hsame rfl rfl
  | declines command hagent hservice text => exact hsame rfl rfl
  | concludes command hagent r hservice => exact hsame rfl rfl
  | delivers pub rest hidle hstream =>
    exact h.of_seats rfl (h.inOrder.offer pub.key pub.payload) rfl rfl hrun
  | ends a ha hidle => exact h.stops rfl rfl s.service
  | speaks pub => exact hsame rfl rfl

theorem opening_seated : opening.Seated where
  inOrder := Listeners.InOrder.empty
  ids := List.nodup_nil
  ids_lt := by simp [opening]
  entered := by simp [opening]
  owned := by simp [opening, Registry.on]

/-! ### How subscribers move on -/

/-- How a subscriber moves on. -/
inductive Leads : Hold → Hold → Prop where
  | requests (call : CallId) : Leads .registered (.waiting call)
  | desists : Leads .registered .failed
  | confirms (call : CallId) : Leads (.waiting call) .held
  | fails (call : CallId) : Leads (.waiting call) .failed
  | withdraws (last : Bool) : Leads .failed (.leaving last)
  | leaves (last : Bool) : Leads .held (.leaving last)

/-- What an act does to the subscribers. -/
inductive Moves (s : System) : List Subscriber → Prop where
  | none : Moves s s.subscribers
  | comes (channel : Key) :
      Moves s (s.subscribers ++ [⟨s.link.listeners.next, channel, .registered⟩])
  | leads (id : ListenerId) (channel : Key) (hold hold' : Hold)
      (hu : ⟨id, channel, hold⟩ ∈ s.subscribers) (hleads : Leads hold hold') :
      Moves s (s.put id hold').subscribers
  | goes (id : ListenerId) (channel : Key) (last : Bool)
      (hu : ⟨id, channel, .leaving last⟩ ∈ s.subscribers) : Moves s (s.without id).subscribers

theorem moves_act (s : System) (a : Act) : s.Moves (s.act a).subscribers := by
  have hchange := s.act_change a
  generalize s.act a = s' at hchange
  cases hchange with
  | registers channel => exact .comes channel
  | requests id channel hu => exact .leads id channel _ _ hu (.requests _)
  | confirms id channel call hu ho => exact .leads id channel _ _ hu (.confirms call)
  | refuses id channel call hu f ho => exact .leads id channel _ _ hu (.fails call)
  | desists id channel hu => exact .leads id channel _ _ hu .desists
  | givesUp id channel call hu => exact .leads id channel _ _ hu (.fails call)
  | strikes id channel hold hu hhold =>
    rcases hhold with rfl | rfl
    · exact .leads id channel _ _ hu (.withdraws _)
    · exact .leads id channel _ _ hu (.leaves _)
  | retires id channel last hu => exact .goes id channel last hu
  | still a hnone hsilent hread => exact .none
  | reads i hread => exact .none
  | publishes channel payload => exact .none
  | closes => exact .none
  | letsGo => exact .none
  | takes command rest hidle hq hcommand => exact .none
  | quits call rest hidle hq => exact .none
  | rests a ha hagent => exact .none
  | skips channel hagent hservice hwanted => exact .none
  | sends command hagent hservice hwanted => exact .none
  | serves command hagent hservice r applied hdone => exact .none
  | declines command hagent hservice text => exact .none
  | concludes command hagent r hservice => exact .none
  | delivers pub rest hidle hstream => exact .none
  | ends a ha hidle => exact .none
  | speaks pub => exact .none

/-- Numbers are not given twice. -/
theorem next_le_act (s : System) (a : Act) :
    s.link.listeners.next ≤ (s.act a).link.listeners.next := by
  have hchange := s.act_change a
  generalize s.act a = s' at hchange
  have hsame : s'.link.listeners = s.link.listeners →
      s.link.listeners.next ≤ s'.link.listeners.next :=
    fun hl => Nat.le_of_eq (congrArg Listeners.next hl).symm
  cases hchange with
  | registers channel => exact Nat.le_succ _
  | requests id channel hu => exact hsame (Link.listeners_send _ _)
  | retires id channel last hu =>
    cases last with
    | true => exact hsame (Link.listeners_retire channel s.link)
    | false => exact hsame rfl
  | publishes channel payload => exact hsame (Link.listeners_send _ _)
  | closes => exact hsame (Link.listeners_send _ _)
  | takes command rest hidle hq hcommand =>
    exact hsame (Link.listeners_refill { s.link with queue := rest })
  | still a hnone hsilent hread => exact Nat.le_refl _
  | confirms id channel call hu ho => exact Nat.le_refl _
  | refuses id channel call hu f ho => exact Nat.le_refl _
  | desists id channel hu => exact Nat.le_refl _
  | givesUp id channel call hu => exact Nat.le_refl _
  | strikes id channel hold hu hhold => exact Nat.le_refl _
  | reads id hread => exact Nat.le_refl _
  | letsGo => exact Nat.le_refl _
  | quits call rest hidle hq => exact Nat.le_refl _
  | rests a ha hagent => exact Nat.le_refl _
  | skips channel hagent hservice hwanted => exact Nat.le_refl _
  | sends command hagent hservice hwanted => exact Nat.le_refl _
  | serves command hagent hservice r applied hdone => exact Nat.le_refl _
  | declines command hagent hservice text => exact Nat.le_refl _
  | concludes command hagent r hservice => exact Nat.le_refl _
  | delivers pub rest hidle hstream => exact Nat.le_refl _
  | ends a ha hidle => exact Nat.le_refl _
  | speaks pub => exact Nat.le_refl _

/-! ### Whole calls -/

theorem Seated.subscriber?_eq (h : s.Seated) (hu : ⟨id, channel, hold⟩ ∈ s.subscribers) :
    s.subscriber? id = some ⟨id, channel, hold⟩ := by
  cases hfound : s.subscriber? id with
  | none =>
    have hnot := List.find?_eq_none.mp hfound _ hu
    exact absurd (decide_eq_true rfl) hnot
  | some v =>
    have hid := List.find?_some (p := fun u : Subscriber => decide (u.id = id)) hfound
    rw [h.unique (List.mem_of_find?_eq_some hfound) hu (of_decide_eq_true hid)]

/-- Registering and handing in the command are the whole of a call to subscribe. -/
theorem link_after_subscribe (h : s.Seated) (hheld : s.link.isHeld = true) (channel : Key) :
    (s.after [.register channel, .request s.link.listeners.next]).link =
      s.link.subscribe channel := by
  have hregister : s.act (.register channel) = { s with
      link := s.link.register channel
      subscribers := s.subscribers ++ [⟨s.link.listeners.next, channel, .registered⟩] } := by
    simp only [System.act, hheld, if_true]
  have hnew : ⟨s.link.listeners.next, channel, .registered⟩ ∈
      (s.act (.register channel)).subscribers := by
    rw [hregister]
    exact List.mem_append_right _ (List.mem_singleton_self _)
  have hrequest : ∀ {s' : System} {id : ListenerId}, s'.Seated →
      ⟨id, channel, .registered⟩ ∈ s'.subscribers →
      (s'.act (.request id)).link = s'.link.request channel := by
    intro s' id h' hu
    simp only [System.act, h'.subscriber?_eq hu]
  rw [after_cons, after_cons, after_nil, Link.subscribe_eq, hrequest (h.act _) hnew, hregister]

/-- Striking a listener out and queueing the unsubscription are the whole of its release. -/
theorem link_after_release (h : s.Seated) (hu : ⟨id, channel, hold⟩ ∈ s.subscribers)
    (hhold : hold = .failed ∨ hold = .held) :
    (s.after [.strike id, .retire id]).link = (s.link.release channel id).1 := by
  have hstrike : s.act (.strike id) = { s.put id (.leaving (s.link.isLast channel id)) with
      link := s.link.strike channel id } := by
    simp only [System.act, h.subscriber?_eq hu, if_pos hhold]
  have hleaving : ⟨id, channel, .leaving (s.link.isLast channel id)⟩ ∈
      (s.act (.strike id)).subscribers := by
    rw [hstrike]
    exact (h.mem_put_iff hu).mpr (.inr rfl)
  have hretire : ∀ {s' : System} {last : Bool}, s'.Seated →
      ⟨id, channel, .leaving last⟩ ∈ s'.subscribers →
      (s'.act (.retire id)).link = if last then s'.link.retire channel else s'.link := by
    intro s' last h' hu
    simp only [System.act, h'.subscriber?_eq hu]
  rw [after_cons, after_cons, after_nil, Link.release_eq, hretire (h.act _) hleaving, hstrike]

/-- A call that is given up while it waits, releases the listener. -/
theorem link_after_abandon (h : s.Seated) {call : CallId}
    (hu : ⟨id, channel, .waiting call⟩ ∈ s.subscribers) :
    (s.after [.giveUp id, .strike id, .retire id]).link = (s.link.abandon call channel id).1 := by
  have hgiveUp : s.act (.giveUp id) = { s.put id .failed with link := s.link.withdraw call } := by
    simp only [System.act, h.subscriber?_eq hu]
  have hfailed : ⟨id, channel, .failed⟩ ∈ (s.act (.giveUp id)).subscribers := by
    rw [hgiveUp]
    exact (h.mem_put_iff hu).mpr (.inr rfl)
  rw [after_cons, link_after_release (h.act _) hfailed (.inl rfl), Link.abandon_eq, hgiveUp]

/-- Taking a command out of the queue and looking at it are the whole of a turn of the agent. -/
theorem link_after_take (hidle : s.link.agent = .idle) :
    (s.after [.draw, .send]).link = s.link.take.1 := by
  have hdraw : s.act .draw = { s with link := s.link.draw, service := .unsent } := by
    simp only [System.act, hidle, if_true]
  have hsend : ∀ {s' : System}, s'.service = .unsent → (s'.act .send).link = s'.link.check := by
    intro s' hservice
    simp only [System.act, hservice]
    by_cases hskip : ∃ channel, s'.link.agent = .executing (.unsubscribe channel) ∧
        s'.link.listeners.wanted channel = true
    · obtain ⟨channel, hagent, hwanted⟩ := hskip
      rw [Link.check_of_wanted hagent hwanted, hagent, if_pos rfl]
    · have hcheck : s'.link.check = s'.link := Link.check_of_unwanted fun channel hagent =>
        Bool.eq_false_iff.mpr fun hwanted => hskip ⟨channel, hagent, hwanted⟩
      rw [hcheck]
      split
      · split <;> rfl
      · rfl
  rw [after_cons, after_cons, after_nil, hdraw, Link.take_eq hidle]
  exact hsend rfl

end System

end Roaming.Redis
