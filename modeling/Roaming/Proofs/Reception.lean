import Roaming.Proofs.Confirmation

/-!
# What a listener receives

While somebody holds a confirmed listener and the agent runs, its inbox changes in two ways only:
the payloads on its channel are offered to it, in the order in which they were published, and the
owner takes payloads out. What is published on the channel is either offered or still on its way.
-/

set_option autoImplicit false
set_option relaxedAutoImplicit false

namespace Roaming.Redis

open Roaming.Text (Bytes)

/-- What can happen to an inbox. -/
inductive Use where
  | offer (payload : Bytes)
  | read

/-- The inbox after a use. -/
def Use.on : Use → Inbox → Inbox
  | .offer payload, inbox => inbox.offer payload
  | .read, inbox => inbox.tail

/-- The inbox after uses in order. -/
def Use.allOn (uses : List Use) (inbox : Inbox) : Inbox := uses.foldl (fun b use => use.on b) inbox

theorem Use.allOn_offer (payloads : List Bytes) (inbox : Inbox) :
    Use.allOn (payloads.map .offer) inbox = inbox.offerAll payloads :=
  List.foldl_map

theorem Use.allOn_append (uses uses' : List Use) (inbox : Inbox) :
    Use.allOn (uses ++ uses') inbox = Use.allOn uses' (Use.allOn uses inbox) :=
  List.foldl_append

namespace System

/-- What the owner of an inbox does to it. -/
def reads (id : ListenerId) (a : Act) (s : System) : List Use :=
  match a with
  | .receive i => if i = id ∧ s.canRead id then [.read] else []
  | _ => []

/-- What an act does to the inbox of a listener on a channel. -/
def uses (id : ListenerId) (channel : Key) (a : Act) (s : System) : List Use :=
  (payloadsOn channel (s.delivered a)).map .offer ++ s.reads id a

/-- What acts bring about, one after the other. -/
def along {α : Type} (f : Act → System → List α) : List Act → System → List α
  | [], _ => []
  | a :: acts, s => f a s ++ along f acts (s.act a)

variable {s s' : System} {a : Act} {id : ListenerId} {channel : Key}

/-! ### One act -/

private theorem uses_eq_nil (hnone : s.delivered a = [])
    (hread : ∀ i, s.canRead i = true → a ≠ .receive i) : s.uses id channel a = [] := by
  rw [uses, hnone, payloadsOn_nil, List.map_nil, List.nil_append]
  unfold reads
  split
  · next i =>
    refine if_neg ?_
    rintro ⟨rfl, hcan⟩
    exact hread i hcan rfl
  · rfl

/-- A listener that stays registered is offered what the agent takes on its channel. -/
theorem inbox_act (h : s.Seated) (hon : id ∈ s.link.listeners.registry.on channel)
    (hon' : id ∈ (s.act a).link.listeners.registry.on channel) :
    (s.act a).link.listeners.inbox id = Use.allOn (s.uses id channel a)
    (s.link.listeners.inbox id) := by
  have hholds := h.inOrder.holds_of_on channel id hon
  have hchange := s.act_change a
  generalize s.act a = s' at hchange hon'
  have hsame : s.uses id channel a = [] → s'.link.listeners = s.link.listeners →
      s'.link.listeners.inbox id = Use.allOn (s.uses id channel a) (s.link.listeners.inbox id) := by
    intro huses hl
    rw [huses, hl]
    rfl
  cases hchange with
  | still a hnone hsilent hread => exact hsame (uses_eq_nil hnone hread) rfl
  | registers channel => exact Listeners.inbox_add hholds channel
  | requests i channel hu => exact hsame rfl (Link.listeners_send _ _)
  | confirms i channel call hu ho => exact hsame rfl rfl
  | refuses i channel call hu f ho => exact hsame rfl rfl
  | desists i channel hu => exact hsame rfl rfl
  | givesUp i channel call hu => exact hsame rfl rfl
  | strikes i channel' hold hu hhold =>
    -- Were it this listener, it would not be registered any more.
    have hne : id ≠ i := by
      rintro rfl
      obtain rfl := h.channel_eq hu hon
      have hleft := hon'
      rw [show (s.link.strike channel id).listeners = s.link.listeners.release channel id from rfl,
        Listeners.on_release h.inOrder, if_pos rfl] at hleft
      exact of_decide_eq_true (List.mem_filter.mp hleft).2 rfl
    exact Listeners.inbox_release hne channel'
  | retires i channel' last hu =>
    cases last with
    | true => exact hsame rfl (Link.listeners_retire channel' s.link)
    | false => exact hsame rfl rfl
  | reads i hread =>
    have htake := Listeners.inbox_take (l := s.link.listeners) i id
    by_cases hi : id = i
    · subst hi
      have huses : s.uses id channel (.receive id) = [.read] := if_pos ⟨rfl, hread⟩
      rw [huses]
      exact htake.trans (if_pos rfl)
    · have huses : s.uses id channel (.receive i) = [] := if_neg fun hand => hi hand.1.symm
      rw [huses]
      exact htake.trans (if_neg hi)
  | publishes channel payload => exact hsame rfl (Link.listeners_send _ _)
  | closes => exact hsame rfl (Link.listeners_send _ _)
  | letsGo => exact hsame rfl rfl
  | takes command rest hidle hq hcommand =>
    exact hsame rfl (Link.listeners_refill { s.link with queue := rest })
  | quits call rest hidle hq => cases hon'
  | rests a ha hagent =>
    refine hsame ?_ rfl
    rcases ha with rfl | rfl <;> rfl
  | skips channel hagent hservice hwanted => exact hsame rfl rfl
  | sends command hagent hservice hwanted => exact hsame rfl rfl
  | serves command hagent hservice r applied hdone => exact hsame rfl rfl
  | declines command hagent hservice text => exact hsame rfl rfl
  | concludes command hagent r hservice => exact hsame rfl rfl
  | delivers pub rest hidle hstream =>
    have huses : s.uses id channel .deliver = (payloadsOn channel [pub]).map .offer := by
      simp only [uses, delivered, hidle, hstream]
      exact List.append_nil _
    rw [huses, Use.allOn_offer]
    exact Listeners.inbox_offerAll h.inOrder hon [pub]
  | ends a ha hidle => cases hon'
  | speaks pub => exact hsame rfl rfl

/-- What is published on the channels of the connection is on its way, until the agent takes it. -/
theorem stream_act (s : System) (a : Act) :
    s.delivered a ++ (s.act a).stream =
      s.stream ++ (s.publications a).filter (·.key ∈ s.channels) := by
  have hchange := s.act_change a
  generalize s.act a = s' at hchange
  have hsame : s.delivered a = [] → s.publications a = [] → s'.stream = s.stream →
      s.delivered a ++ s'.stream = s.stream ++ (s.publications a).filter (·.key ∈ s.channels) := by
    intro hnone hsilent hstream
    rw [hnone, hsilent, hstream, List.nil_append, List.filter_nil, List.append_nil]
  cases hchange with
  | still a hnone hsilent hread => exact hsame hnone hsilent rfl
  | registers channel => exact hsame rfl rfl rfl
  | requests i channel hu => exact hsame rfl rfl rfl
  | confirms i channel call hu ho => exact hsame rfl rfl rfl
  | refuses i channel call hu f ho => exact hsame rfl rfl rfl
  | desists i channel hu => exact hsame rfl rfl rfl
  | givesUp i channel call hu => exact hsame rfl rfl rfl
  | strikes i channel' hold hu hhold => exact hsame rfl rfl rfl
  | retires i channel' last hu => exact hsame rfl rfl rfl
  | reads i hread => exact hsame rfl rfl rfl
  | publishes channel payload => exact hsame rfl rfl rfl
  | closes => exact hsame rfl rfl rfl
  | letsGo => exact hsame rfl rfl rfl
  | takes command rest hidle hq hcommand => exact hsame rfl rfl rfl
  | quits call rest hidle hq => exact hsame rfl rfl rfl
  | rests a ha hagent => rcases ha with rfl | rfl <;> exact hsame rfl rfl rfl
  | skips channel hagent hservice hwanted => exact hsame rfl rfl rfl
  | sends command hagent hservice hwanted => exact hsame rfl rfl rfl
  | serves command hagent hservice r applied hdone =>
    have hpubs : s.publications (.serve r applied) = command.publications := by
      simp only [publications, hagent, hservice]
      exact if_pos hdone
    rw [hpubs]
    rfl
  | declines command hagent hservice text =>
    refine hsame rfl ?_ rfl
    simp only [publications, hagent, hservice]
    rfl
  | concludes command hagent r hservice => exact hsame rfl rfl rfl
  | delivers pub rest hidle hstream =>
    have hpub : s.delivered .deliver = [pub] := by
      simp only [delivered, hidle, hstream]
    rw [hpub, hstream]
    exact (List.append_nil _).symm
  | ends a ha hidle => rcases ha with rfl | rfl <;> exact hsame rfl rfl rfl
  | speaks pub => rfl

/-! ### Those who hold a listener -/

/-- Whoever had the number `id` has let go of its listener. -/
structure HasLeft (id : ListenerId) (s : System) : Prop where
  lt : id < s.link.listeners.next
  leaving : ∀ u ∈ s.subscribers, u.id = id → ∃ last, u.hold = .leaving last

theorem HasLeft.act (h : s.HasLeft id) (a : Act) : (s.act a).HasLeft id := by
  refine ⟨Nat.lt_of_lt_of_le h.lt (s.next_le_act a), ?_⟩
  have hmoves := s.moves_act a
  generalize (s.act a).subscribers = subscribers at hmoves
  cases hmoves with
  | none => exact h.leaving
  | comes channel =>
    intro u hu hid
    rcases List.mem_append.mp hu with hu | hu
    · exact h.leaving u hu hid
    · rw [List.mem_singleton.mp hu] at hid
      exact absurd h.lt (hid ▸ Nat.lt_irrefl _)
  | leads i channel hold hold' hv hleads =>
    intro u hu hid
    rcases mem_put.mp hu with ⟨hu, -⟩ | ⟨v, -, -, rfl⟩
    · exact h.leaving u hu hid
    · obtain ⟨last, he⟩ := h.leaving _ hv hid
      cases he
      cases hleads
  | goes i channel last hv => exact fun u hu => h.leaving u (mem_without.mp hu).1

/-- Whoever holds a listener goes on to hold it, or lets go of it for good. -/
theorem held_or_hasLeft (h : s.Seated) (hu : ⟨id, channel, .held⟩ ∈ s.subscribers) (a : Act) :
    ⟨id, channel, .held⟩ ∈ (s.act a).subscribers ∨ (s.act a).HasLeft id := by
  have hlt : id < (s.act a).link.listeners.next := by
    have hid := h.ids_lt _ hu
    exact Nat.lt_of_lt_of_le hid (s.next_le_act a)
  have hleft : (∀ v ∈ (s.act a).subscribers, v.id = id → ∃ last, v.hold = .leaving last) →
      (s.act a).HasLeft id := fun hleaving => ⟨hlt, hleaving⟩
  have hmoves := s.moves_act a
  generalize (s.act a).subscribers = subscribers at hmoves hleft
  cases hmoves with
  | none => exact .inl hu
  | comes channel => exact .inl (List.mem_append_left _ hu)
  | leads i channel' hold hold' hv hleads =>
    by_cases hi : id = i
    · subst hi
      cases h.unique hu hv rfl
      cases hleads with
      | leaves last =>
        refine .inr (hleft fun v hmem hid => ?_)
        rcases mem_put.mp hmem with ⟨-, hne⟩ | ⟨w, -, -, rfl⟩
        · exact absurd hid hne
        · exact ⟨last, rfl⟩
    · exact .inl (mem_put.mpr (.inl ⟨hu, hi⟩))
  | goes i channel' last hv =>
    refine .inl (mem_without.mpr ⟨hu, fun hid => ?_⟩)
    cases h.unique hu hv hid

/-! ### Runs -/

theorem running_of_after {acts : List Act} (h : (s.after acts).link.isStopped = false) :
    s.link.isStopped = false := by
  induction acts generalizing s with
  | nil => exact h
  | cons a acts ih => exact running_of_act (ih h)

theorem HasLeft.after (h : s.HasLeft id) (acts : List Act) : (s.after acts).HasLeft id := by
  induction acts generalizing s with
  | nil => exact h
  | cons a acts ih => exact ih (h.act a)

theorem Sound.on_of_held (h : s.Sound) (hrun : s.link.isStopped = false)
    (hu : ⟨id, channel, .held⟩ ∈ s.subscribers) :
    id ∈ s.link.listeners.registry.on channel :=
  h.entered hrun _ hu rfl

/-- Who holds a listener after acts, has held it all the time. -/
theorem held_act_of_held_after (h : s.Sound) {acts : List Act}
    (hu : ⟨id, channel, .held⟩ ∈ s.subscribers)
    (hend : ⟨id, channel, .held⟩ ∈ ((s.act a).after acts).subscribers) :
    ⟨id, channel, .held⟩ ∈ (s.act a).subscribers := by
  rcases held_or_hasLeft h.toSeated hu a with hheld | hleft
  · exact hheld
  · obtain ⟨last, he⟩ := (hleft.after acts).leaving _ hend rfl
    cases he

theorem inbox_after (h : s.Sound) {acts : List Act} (hu : ⟨id, channel, .held⟩ ∈ s.subscribers)
    (hend : ⟨id, channel, .held⟩ ∈ (s.after acts).subscribers)
    (hrun : (s.after acts).link.isStopped = false) :
    (s.after acts).link.listeners.inbox id =
      Use.allOn (along (uses id channel) acts s) (s.link.listeners.inbox id) := by
  -- Both conditions at the end hold after the first act already, for neither comes back once lost.
  induction acts generalizing s with
  | nil => rfl
  | cons a acts ih =>
    have hrun' : (s.act a).link.isStopped = false := running_of_after hrun
    have hheld := held_act_of_held_after h hu hend
    have hon := h.on_of_held (running_of_act hrun') hu
    have hon' := (h.act a).on_of_held hrun' hheld
    rw [along, Use.allOn_append, ← inbox_act h.toSeated hon hon']
    exact ih (h.act a) hheld hend hrun

/-- What is published on a channel of the connection, is published to it. -/
private theorem payloadsOn_heard (hchannel : channel ∈ s.channels) (pubs : List Publication) :
    payloadsOn channel (pubs.filter (·.key ∈ s.channels)) = payloadsOn channel pubs := by
  rw [payloadsOn, payloadsOn, List.filter_filter]
  congr 1
  refine List.filter_congr fun pub _ => ?_
  by_cases hkey : pub.key = channel
  · simp [hkey, hchannel]
  · simp [hkey]

theorem stream_after (h : s.Sound) {acts : List Act} (hu : ⟨id, channel, .held⟩ ∈ s.subscribers)
    (hend : ⟨id, channel, .held⟩ ∈ (s.after acts).subscribers)
    (hrun : (s.after acts).link.isStopped = false) :
    payloadsOn channel (along delivered acts s) ++ payloadsOn channel (s.after acts).stream =
      payloadsOn channel s.stream ++ payloadsOn channel (along publications acts s) := by
  induction acts generalizing s with
  | nil => simp [along]
  | cons a acts ih =>
    have hrun' : (s.act a).link.isStopped = false := running_of_after hrun
    have hheld := held_act_of_held_after h hu hend
    have harmed := h.armed (running_of_act hrun') _ hu (.taken id channel)
    have hone := congrArg (payloadsOn channel) (s.stream_act a)
    rw [payloadsOn_append, payloadsOn_append, payloadsOn_heard harmed.subscribed] at hone
    rw [along, along, payloadsOn_append, payloadsOn_append, List.append_assoc, after_cons,
      ih (h.act a) hheld hend hrun, ← List.append_assoc, hone, List.append_assoc]

/-- However the calls of a link, its agent and the broker interleave: while a subscription is
confirmed and the agent runs, the listener is registered on its channel, the broker's connection is
subscribed to that channel, and no unsubscription from it is with the broker. While the listener is
held, what is published on the channel is on its way or was offered to the inbox, each message once
and in order, and no other message was. -/
theorem confirmed_listener_stays_armed (before : List Act) {u : Subscriber}
    (hu : u ∈ (opening.after before).subscribers)
    (hconfirmed : (opening.after before).Confirmed u)
    (hrun : (opening.after before).link.isStopped = false) :
    let s := opening.after before
    (u.id ∈ s.link.listeners.registry.on u.channel ∧ s.link.listeners.Holds u.id ∧
      u.channel ∈ s.channels ∧ s.asked? ≠ some (.unsubscribe u.channel)) ∧
    ∀ acts, u.hold = .held → u ∈ (s.after acts).subscribers →
      (s.after acts).link.isStopped = false →
      (s.after acts).link.listeners.inbox u.id =
        Use.allOn (along (uses u.id u.channel) acts s) (s.link.listeners.inbox u.id) ∧
      payloadsOn u.channel (along delivered acts s) ++ payloadsOn u.channel (s.after acts).stream =
        payloadsOn u.channel s.stream ++ payloadsOn u.channel (along publications acts s) := by
  intro s
  have hsound : s.Sound := opening_sound.after before
  refine ⟨?_, ?_⟩
  · have hon := hsound.entered hrun u hu hconfirmed.isEntered
    have harmed := hsound.armed hrun u hu hconfirmed
    exact ⟨hon, hsound.inOrder.holds_of_on _ _ hon, harmed.subscribed, harmed.kept⟩
  · obtain ⟨id, channel, hold⟩ := u
    rintro acts rfl hend hrun'
    exact ⟨inbox_after hsound hu hend hrun', stream_after hsound hu hend hrun'⟩

/-- The unsubscription that the first listener leaves behind is taken after the second has come. -/
def newcomer : List Act :=
  [.register "c", .request 0, .draw, .send, .serve (.ok 1) true, .conclude, .resume 0, .strike 0,
    .retire 0, .register "c", .request 1, .draw, .send, .draw, .send, .serve (.ok 1) true,
    .conclude, .resume 1]

theorem newcomer_receives_its_messages :
    let s := opening.after newcomer
    let s' := s.after [.speak ⟨"c", [1]⟩, .speak ⟨"d", [9]⟩, .deliver, .receive 1, .publish "c" [2],
      .draw, .send, .serve (.ok 1) true, .conclude, .speak ⟨"c", [3]⟩, .deliver]
    (1 ∈ s.link.listeners.registry.on "c" ∧ s.link.listeners.Holds 1 ∧ "c" ∈ s.channels ∧
      s.asked? ≠ some (.unsubscribe "c")) ∧
    s'.link.listeners.inbox 1 = Use.allOn [.offer [1], .read, .offer [2]] [] ∧
    [[1], [2]] ++ payloadsOn "c" s'.stream = [[1], [2], [3]] := by
  have hheld : ⟨1, "c", .held⟩ ∈ (opening.after newcomer).subscribers := List.mem_singleton_self _
  obtain ⟨harmed, hlater⟩ := confirmed_listener_stays_armed newcomer hheld (.taken 1 "c") rfl
  exact ⟨harmed, hlater _ rfl (List.mem_singleton_self _) rfl⟩

end System

end Roaming.Redis
