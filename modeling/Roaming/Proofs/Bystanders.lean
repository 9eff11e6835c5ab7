import Roaming.Proofs.Closing

/-!
# Who goes on while an agent stops

Subscribers, callers and the broker act on, whether the agent runs or not. What they do to the
subscribers (`System.Becomes`) and to the listeners (`System.Touches`) does not depend on it, so
that a subscriber finds its listener where it would with an agent that has stopped
(`System.halted`).
-/

set_option autoImplicit false
set_option relaxedAutoImplicit false

namespace Roaming.Redis

namespace System

variable {s : System} {a : Act}

/-- The system as it would be if its agent had stopped. -/
def halted (s : System) : System := { s with link := { s.link with agent := .stopped } }

@[simp] theorem subscribers_halted (s : System) : s.halted.subscribers = s.subscribers := rfl
@[simp] theorem listeners_halted (s : System) : s.halted.link.listeners = s.link.listeners := rfl
@[simp] theorem nextCall_halted (s : System) : s.halted.link.nextCall = s.link.nextCall := rfl
@[simp] theorem isHeld_halted (s : System) : s.halted.link.isHeld = s.link.isHeld := rfl
@[simp] theorem subscriber?_halted (id : ListenerId) (s : System) :
    s.halted.subscriber? id = s.subscriber? id := rfl
@[simp] theorem outcome?_halted (call : CallId) (s : System) :
    s.halted.link.outcome? call = s.link.outcome? call := rfl
@[simp] theorem canRead_halted (id : ListenerId) (s : System) :
    s.halted.canRead id = s.canRead id := rfl

/-- Whether the agent runs, is nothing to subscribers and their listeners. -/
theorem act_halted (ha : a.isAgents = false) :
    (s.halted.act a).subscribers = (s.act a).subscribers ∧
      (s.halted.act a).link.listeners = (s.act a).link.listeners := by
  cases a with
  | register channel =>
    by_cases hheld : s.link.isHeld = true
    · simp [act, hheld, Link.register]
    · simp [act, hheld]
  | request id =>
    simp only [act, subscriber?_halted, Link.request]
    split <;> simp [Link.listeners_send, put]
  | resume id =>
    simp only [act, subscriber?_halted, outcome?_halted]
    split
    · split <;> exact ⟨rfl, rfl⟩
    · exact ⟨rfl, rfl⟩
  | giveUp id =>
    simp only [act, subscriber?_halted]
    split <;> exact ⟨rfl, rfl⟩
  | strike id =>
    simp only [act, subscriber?_halted]
    split
    · split <;> exact ⟨rfl, rfl⟩
    · exact ⟨rfl, rfl⟩
  | retire id =>
    simp only [act, subscriber?_halted]
    split
    · next last _ =>
      cases last <;> simp [without, Link.listeners_retire]
    · exact ⟨rfl, rfl⟩
  | receive id =>
    by_cases hread : s.canRead id = true
    · simp [act, hread]
    · simp [act, hread]
  | publish channel payload =>
    by_cases hheld : s.link.isHeld = true
    · simp [act, hheld, Link.publish, Link.listeners_send]
    · simp [act, hheld]
  | close =>
    by_cases hheld : s.link.isHeld = true
    · simp [act, hheld, Link.close, Link.listeners_send]
    · simp [act, hheld]
  | letGo => exact ⟨rfl, rfl⟩
  | serve r applied =>
    have hidle : s.halted.act (.serve r applied) = s.halted := rfl
    rw [hidle]
    simp only [act]
    split
    · split <;> exact ⟨rfl, rfl⟩
    · exact ⟨rfl, rfl⟩
  | speak pub => exact ⟨rfl, rfl⟩
  | draw | send | conclude | deliver | streamEnd | desert => cases ha

theorem Seated.of_same {t : System} (h : s.Seated) (hsub : t.subscribers = s.subscribers)
    (hl : t.link.listeners = s.link.listeners)
    (hrun : t.link.isStopped = false → s.link.isStopped = false) : t.Seated where
  inOrder := hl ▸ h.inOrder
  ids := hsub ▸ h.ids
  ids_lt u hu := hl ▸ h.ids_lt u (hsub ▸ hu)
  entered hrun' u hu hentered := hl ▸ h.entered (hrun hrun') u (hsub ▸ hu) hentered
  owned channel id hon := hsub ▸ h.owned channel id (hl ▸ hon)

theorem Seated.halted (h : s.Seated) : s.halted.Seated :=
  h.of_same rfl rfl fun hrun => by cases hrun

/-! ### What others do -/

/-- What an act can make of a subscriber. -/
inductive Becomes (s : System) (a : Act) : Subscriber → Prop where
  | registered (channel : Key) : Becomes s a ⟨s.link.listeners.next, channel, .registered⟩
  | waiting (id : ListenerId) (channel : Key) (ha : a = .request id)
      (hhanded : s.handed a = [.subscribe s.link.nextCall channel]) :
      Becomes s a ⟨id, channel, .waiting s.link.nextCall⟩
  | held (id : ListenerId) (channel : Key) (call : CallId)
      (hu : ⟨id, channel, .waiting call⟩ ∈ s.subscribers) (ho : (call, .ok ()) ∈ s.link.outcomes) :
      Becomes s a ⟨id, channel, .held⟩
  | failed (id : ListenerId) (channel : Key) : Becomes s a ⟨id, channel, .failed⟩
  | leaving (id : ListenerId) (channel : Key) (last : Bool) :
      Becomes s a ⟨id, channel, .leaving last⟩

theorem becomes_of_mem (hs : s.halted.Seated) {u : Subscriber} (hu : u ∈ (s.act a).subscribers) :
    u ∈ s.subscribers ∨ s.Becomes a u := by
  have hput : ∀ {id : ListenerId} {channel : Key} {hold hold' : Hold},
      ⟨id, channel, hold⟩ ∈ s.subscribers → u ∈ (s.put id hold').subscribers →
      s.Becomes a ⟨id, channel, hold'⟩ → u ∈ s.subscribers ∨ s.Becomes a u := by
    intro id channel hold hold' hw hu hbecomes
    rcases (hs.mem_put_iff hw).mp hu with ⟨hu, -⟩ | rfl
    · exact .inl hu
    · exact .inr hbecomes
  have hchange := s.act_change a
  generalize s.act a = t at hchange hu
  cases hchange with
  | registers channel =>
    refine (List.mem_append.mp hu).imp_right fun hu => ?_
    rw [List.mem_singleton.mp hu]
    exact .registered channel
  | requests id channel hw =>
    have hfind : s.subscriber? id = _ := hs.subscriber?_eq hw
    refine hput hw hu (.waiting id channel rfl ?_)
    simp only [handed, hfind]
  | confirms id channel call hw ho =>
    exact hput hw hu (.held id channel call hw (Link.mem_of_outcome? ho))
  | refuses id channel call hw => exact hput hw hu (.failed id channel)
  | desists id channel hw => exact hput hw hu (.failed id channel)
  | givesUp id channel call hw => exact hput hw hu (.failed id channel)
  | strikes id channel hold hw => exact hput hw hu (.leaving id channel _)
  | retires id channel last hw => exact .inl (mem_without.mp hu).1
  | _ => exact .inl hu

/-- Who is done with a call, does not wait for it. -/
theorem settled_eq_some {call : CallId} {progress : Progress}
    (h : s.settled a = some (call, progress)) : progress ≠ .waiting ∧ ∃ id channel,
      ⟨id, channel, .waiting call⟩ ∈ s.subscribers ∧
      ∀ u ∈ (s.act a).subscribers, u.id = id → ∀ k, u.hold ≠ .waiting k := by
  have hput : ∀ {id : ListenerId} {hold : Hold} (u : Subscriber), (∀ k, hold ≠ .waiting k) →
      u ∈ (s.put id hold).subscribers → u.id = id → ∀ k, u.hold ≠ .waiting k := by
    intro id hold u hhold hu hid
    rcases mem_put.mp hu with ⟨-, hne⟩ | ⟨v, -, -, rfl⟩
    · exact absurd hid hne
    · exact hhold
  unfold settled at h
  split at h
  · next id =>
    split at h
    · next i channel call' hfind =>
      obtain ⟨r, ho, he⟩ := Option.map_eq_some_iff.mp h
      cases he
      refine ⟨by simp, id, channel, mem_of_subscriber? hfind, fun u hu => ?_⟩
      cases r <;> simp only [act, hfind, ho] at hu <;> exact hput u (by simp) hu
    · cases h
  · next id =>
    split at h
    · next i channel call' hfind =>
      cases h
      refine ⟨by simp, id, channel, mem_of_subscriber? hfind, fun u hu => ?_⟩
      simp only [act, hfind] at hu
      exact hput u (by simp) hu
    · cases h
  · cases h

/-- Whoever waits for a call, goes on to wait until it is done with it. -/
theorem waiting_of_act (hs : s.halted.Seated) {id : ListenerId} {channel : Key} {call : CallId}
    (hu : ⟨id, channel, .waiting call⟩ ∈ s.subscribers) :
    ⟨id, channel, .waiting call⟩ ∈ (s.act a).subscribers ∨
      ∃ progress, s.settled a = some (call, progress) := by
  have hput : ∀ {i : ListenerId} {k : Key} {hold hold' : Hold}, ⟨i, k, hold⟩ ∈ s.subscribers →
      (i = id → hold ≠ .waiting call) →
      ⟨id, channel, .waiting call⟩ ∈ (s.put i hold').subscribers := by
    intro i k hold hold' hv hne
    refine mem_put.mpr (.inl ⟨hu, ?_⟩)
    rintro rfl
    exact hne rfl (congrArg Subscriber.hold (hs.unique hv hu rfl))
  have hsettled :
      ∀ {i : ListenerId} {k : Key} {call' : CallId} {hold' : Hold} {progress : Progress},
      ⟨i, k, .waiting call'⟩ ∈ s.subscribers → s.settled a = some (call', progress) →
      ⟨id, channel, .waiting call⟩ ∈ (s.put i hold').subscribers ∨
        ∃ progress, s.settled a = some (call, progress) := by
    intro i k call' hold' progress hv hset
    by_cases hi : i = id
    · subst hi
      cases hs.unique hv hu rfl
      exact .inr ⟨progress, hset⟩
    · exact .inl (hput hv fun he => absurd he hi)
  have hchange := s.act_change a
  generalize s.act a = t at hchange
  cases hchange with
  | registers k => exact .inl (List.mem_append_left _ hu)
  | requests i k hv => exact .inl (hput hv (by simp))
  | confirms i k call' hv ho =>
    have hfind : s.subscriber? i = _ := hs.subscriber?_eq hv
    exact hsettled hv (by simp only [settled, hfind, ho, Option.map_some]; rfl)
  | refuses i k call' hv f ho =>
    have hfind : s.subscriber? i = _ := hs.subscriber?_eq hv
    exact hsettled hv (by simp only [settled, hfind, ho, Option.map_some]; rfl)
  | desists i k hv => exact .inl (hput hv (by simp))
  | givesUp i k call' hv =>
    have hfind : s.subscriber? i = _ := hs.subscriber?_eq hv
    exact hsettled hv (by simp only [settled, hfind]; rfl)
  | strikes i k hold hv hhold =>
    refine .inl (hput hv fun _ he => ?_)
    rw [he] at hhold
    rcases hhold with he | he <;> cases he
  | retires i k last hv =>
    refine .inl (mem_without.mpr ⟨hu, ?_⟩)
    rintro rfl
    cases congrArg Subscriber.hold (hs.unique hv hu rfl)
  | _ => exact .inl hu

theorem handed_cases (s : System) (a : Act) :
    s.handed a = [] ∨ ∃ command, s.handed a = [command] := by
  unfold handed
  split
  · split
    · exact .inr ⟨_, rfl⟩
    · exact .inl rfl
  · split
    · exact .inr ⟨_, rfl⟩
    · exact .inl rfl
  · split
    · exact .inr ⟨_, rfl⟩
    · exact .inl rfl
  · exact .inl rfl

/-- Whoever hands in a command to subscribe, waits for it. -/
theorem mem_of_handed {k : CallId} {channel : Key} (h : s.handed a = [.subscribe k channel]) :
    ∃ id, ⟨id, channel, .waiting s.link.nextCall⟩ ∈ (s.act a).subscribers := by
  unfold handed at h
  split at h
  · next id =>
    split at h
    · next i channel' hfind =>
      cases h
      refine ⟨id, ?_⟩
      simp only [act, hfind]
      exact mem_put.mpr (.inr ⟨_, mem_of_subscriber? hfind, rfl, rfl⟩)
    · cases h
  · split at h <;> cases h
  · split at h <;> cases h
  · cases h

/-- What an act of others does to the listeners. -/
inductive Touches (s : System) : Act → Listeners → Prop where
  | none (a : Act) (hread : ∀ id, s.canRead id = true → a ≠ .receive id) :
      Touches s a s.link.listeners
  | adds (channel : Key) : Touches s (.register channel) (s.link.listeners.add channel)
  | releases (id : ListenerId) (channel : Key) (hold : Hold)
      (hu : ⟨id, channel, hold⟩ ∈ s.subscribers) :
      Touches s (.strike id) (s.link.listeners.release channel id)
  | takes (id : ListenerId) (hread : s.canRead id = true) :
      Touches s (.receive id) (s.link.listeners.take id)

theorem touches_act (s : System) (ha : a.isAgents = false) :
    s.Touches a (s.act a).link.listeners := by
  have hchange := s.act_change a
  generalize s.act a = t at hchange
  have hsame : t.link.listeners = s.link.listeners →
      (∀ id, s.canRead id = true → a ≠ .receive id) → s.Touches a t.link.listeners :=
    fun hl hread => hl ▸ .none a hread
  cases hchange with
  | still a hnone hsilent hread => exact .none a hread
  | registers channel => exact .adds channel
  | requests => exact hsame (Link.listeners_send _ _) (by simp)
  | strikes id channel hold hu => exact .releases id channel hold hu
  | reads id hread => exact .takes id hread
  | retires id channel last hu =>
    cases last with
    | true => exact hsame (Link.listeners_retire channel _) (by simp)
    | false => exact hsame rfl (by simp)
  | publishes | closes => exact hsame (Link.listeners_send _ _) (by simp)
  | takes | quits | skips | sends | concludes | delivers => cases ha
  | rests a ha' | ends a ha' => rcases ha' with rfl | rfl <;> cases ha
  | _ => exact hsame rfl (by simp)

theorem subscribers_of_agents (ha : a.isAgents = true) : (s.act a).subscribers = s.subscribers := by
  have hchange := s.act_change a
  generalize s.act a = t at hchange
  cases hchange with
  | registers | requests | confirms | refuses | desists | givesUp | strikes | retires => cases ha
  | _ => rfl

theorem departure_same {t : System} (h : s.departure a = some t) :
    t.subscribers = s.subscribers ∧ t.link.listeners = s.link.listeners := by
  obtain ⟨-, ⟨call, rest, -, -, rfl⟩ | ⟨-, rfl⟩⟩ := departure_eq_some h <;> exact ⟨rfl, rfl⟩

/-- Only a new listener comes on a channel. -/
theorem on_of_touches {l : Listeners} (h : s.link.listeners.InOrder) (ht : s.Touches a l)
    {id : ListenerId} {channel : Key} (hon : id ∈ l.registry.on channel) :
    id ∈ s.link.listeners.registry.on channel ∨ id = s.link.listeners.next := by
  cases ht with
  | none hread => exact .inl hon
  | takes i hread => exact .inl hon
  | adds k =>
    have hon' := Registry.on_enroll s.link.listeners.registry k channel s.link.listeners.next
    rw [Listeners.add, hon'] at hon
    split at hon
    · exact (List.mem_append.mp hon).imp_right List.mem_singleton.mp
    · exact .inl hon
  | releases i k hold hu =>
    rw [Listeners.on_release h] at hon
    split at hon
    · exact .inl (List.mem_filter.mp hon).1
    · exact .inl hon

theorem next_le_of_touches {l : Listeners} (ht : s.Touches a l) :
    s.link.listeners.next ≤ l.next := by
  cases ht with
  | adds channel => exact Nat.le_succ _
  | _ => exact Nat.le_refl _

end System

end Roaming.Redis
