import Roaming.Proofs.Subscribing

/-!
# Changes of a system

Every act comes to one of a few changes (`System.Change`), which tell under which condition they
happen. Whatever an act keeps up is proved by one case for each change.
-/

set_option autoImplicit false
set_option relaxedAutoImplicit false

namespace Roaming.Redis

open Roaming.Text (Bytes)

namespace System

/-- The message that the agent takes. -/
def delivered (a : Act) (s : System) : List Publication :=
  match a, s.link.agent, s.stream with
  | .deliver, .idle, pub :: _ => [pub]
  | _, _, _ => []

/-- What is published at the broker, by the link or by somebody else. -/
def publications (a : Act) (s : System) : List Publication :=
  match a, s.link.agent, s.service with
  | .speak pub, _, _ => [pub]
  | .serve r applied, .executing command, .asked =>
    if r.isOk || applied then command.publications else []
  | _, _, _ => []

/-- What an act does, with what must be the case for it. -/
inductive Change (s : System) : Act → System → Prop where
  | still (a : Act) (hnone : s.delivered a = []) (hsilent : s.publications a = [])
      (hread : ∀ id, s.canRead id = true → a ≠ .receive id) : Change s a s
  | registers (channel : Key) : Change s (.register channel)
      { s with
        link := s.link.register channel
        subscribers := s.subscribers ++ [⟨s.link.listeners.next, channel, .registered⟩] }
  | requests (id : ListenerId) (channel : Key)
      (hu : ⟨id, channel, .registered⟩ ∈ s.subscribers) :
      Change s (.request id)
        { s.put id (.waiting s.link.nextCall) with link := s.link.request channel }
  | confirms (id : ListenerId) (channel : Key) (call : CallId)
      (hu : ⟨id, channel, .waiting call⟩ ∈ s.subscribers)
      (ho : s.link.outcome? call = some (.ok ())) :
      Change s (.resume id) { s.put id .held with link := s.link.fetched call }
  | refuses (id : ListenerId) (channel : Key) (call : CallId)
      (hu : ⟨id, channel, .waiting call⟩ ∈ s.subscribers) (f : Failure)
      (ho : s.link.outcome? call = some (.error f)) :
      Change s (.resume id) { s.put id .failed with link := s.link.fetched call }
  | desists (id : ListenerId) (channel : Key) (hu : ⟨id, channel, .registered⟩ ∈ s.subscribers) :
      Change s (.giveUp id) (s.put id .failed)
  | givesUp (id : ListenerId) (channel : Key) (call : CallId)
      (hu : ⟨id, channel, .waiting call⟩ ∈ s.subscribers) :
      Change s (.giveUp id) { s.put id .failed with link := s.link.withdraw call }
  | strikes (id : ListenerId) (channel : Key) (hold : Hold)
      (hu : ⟨id, channel, hold⟩ ∈ s.subscribers) (hhold : hold = .failed ∨ hold = .held) :
      Change s (.strike id)
        { s.put id (.leaving (s.link.isLast channel id)) with link := s.link.strike channel id }
  | retires (id : ListenerId) (channel : Key) (last : Bool)
      (hu : ⟨id, channel, .leaving last⟩ ∈ s.subscribers) :
      Change s (.retire id)
        { s.without id with link := if last then s.link.retire channel else s.link }
  | reads (id : ListenerId) (hread : s.canRead id = true) :
      Change s (.receive id)
        { s with link := { s.link with listeners := s.link.listeners.take id } }
  | publishes (channel : Key) (payload : Bytes) :
      Change s (.publish channel payload) { s with link := s.link.publish channel payload }
  | closes : Change s .close { s with link := s.link.close }
  | letsGo : Change s .letGo { s with link := { s.link with isHeld := false } }
  | takes (command : Command) (rest : List Command) (hidle : s.link.agent = .idle)
      (hq : s.link.queue = command :: rest) (hcommand : ∀ call, command ≠ .close call) :
      Change s .draw
        { s with
          link := { Link.refill { s.link with queue := rest } with agent := .executing command }
          service := .unsent }
  | quits (call : CallId) (rest : List Command) (hidle : s.link.agent = .idle)
      (hq : s.link.queue = .close call :: rest) :
      Change s .draw
        { s with
          link := (Link.stop { s.link with
            queue := rest, outcomes := s.link.outcomes ++ [(call, .ok ())] }).1
          service := .unsent }
  | rests (a : Act) (ha : a = .draw ∨ a = .conclude)
      (hagent : ∀ command, s.link.agent ≠ .executing command) :
      Change s a { s with service := .unsent }
  | skips (channel : Key) (hagent : s.link.agent = .executing (.unsubscribe channel))
      (hservice : s.service = .unsent) (hwanted : s.link.listeners.wanted channel = true) :
      Change s .send { s with link := { s.link with agent := .idle } }
  | sends (command : Command) (hagent : s.link.agent = .executing command)
      (hservice : s.service = .unsent)
      (hwanted : ∀ channel, command = .unsubscribe channel →
        s.link.listeners.wanted channel = false) :
      Change s .send { s with service := .asked }
  | serves (command : Command) (hagent : s.link.agent = .executing command)
      (hservice : s.service = .asked) (r : Link.BrokerReply) (applied : Bool)
      (hdone : (r.isOk || applied) = true) :
      Change s (.serve r applied)
        { s.hear command.publications with
          channels := command.effect s.channels, service := .answered r }
  | declines (command : Command) (hagent : s.link.agent = .executing command)
      (hservice : s.service = .asked) (text : String) :
      Change s (.serve (.error text) false) { s with service := .answered (.error text) }
  | concludes (command : Command) (hagent : s.link.agent = .executing command)
      (r : Link.BrokerReply) (hservice : s.service = .answered r) :
      Change s .conclude
        { s with
          link := { s.link with
            agent := .idle, outcomes := s.link.outcomes ++ (Link.conclude command r).1 }
          service := .unsent }
  | delivers (pub : Publication) (rest : List Publication) (hidle : s.link.agent = .idle)
      (hstream : s.stream = pub :: rest) :
      Change s .deliver
        { s with
          link := { s.link with listeners := s.link.listeners.offer pub.key pub.payload }
          stream := rest }
  | ends (a : Act) (ha : a = .streamEnd ∨ a = .desert) (hidle : s.link.agent = .idle) :
      Change s a { s with link := s.link.stop.1 }
  | speaks (pub : Publication) : Change s (.speak pub) (s.hear [pub])

theorem mem_of_subscriber? {s : System} {id i : ListenerId} {channel : Key} {hold : Hold}
    (h : s.subscriber? id = some ⟨i, channel, hold⟩) :
    ⟨id, channel, hold⟩ ∈ s.subscribers := by
  have hid := List.find?_some (p := fun u : Subscriber => decide (u.id = id)) h
  obtain rfl : i = id := of_decide_eq_true hid
  exact List.mem_of_find?_eq_some h

private theorem still_of {s : System} {a : Act} (hdeliver : a ≠ .deliver)
    (hspeak : ∀ pub, a ≠ .speak pub) (hserve : ∀ r applied, a ≠ .serve r applied)
    (hread : ∀ id, a ≠ .receive id) : s.Change a s := by
  refine .still a ?_ ?_ fun id _ => hread id
  · unfold delivered
    split
    · exact absurd rfl hdeliver
    · rfl
  · unfold publications
    split
    · exact absurd rfl (hspeak _)
    · exact absurd rfl (hserve _ _)
    · rfl

theorem act_change (s : System) (a : Act) : s.Change a (s.act a) := by
  cases a with
  | register channel =>
    simp only [act]
    split
    · exact .registers channel
    · exact still_of (by simp) (by simp) (by simp) (by simp)
  | request id =>
    simp only [act]
    split
    · next hu => exact .requests id _ (mem_of_subscriber? hu)
    · exact still_of (by simp) (by simp) (by simp) (by simp)
  | resume id =>
    simp only [act]
    split
    · next hu =>
      split
      · next ho => exact .confirms id _ _ (mem_of_subscriber? hu) ho
      · next ho => exact .refuses id _ _ (mem_of_subscriber? hu) _ ho
      · exact still_of (by simp) (by simp) (by simp) (by simp)
    · exact still_of (by simp) (by simp) (by simp) (by simp)
  | giveUp id =>
    simp only [act]
    split
    · next hu => exact .desists id _ (mem_of_subscriber? hu)
    · next hu => exact .givesUp id _ _ (mem_of_subscriber? hu)
    · exact still_of (by simp) (by simp) (by simp) (by simp)
  | strike id =>
    simp only [act]
    split
    · next u hu =>
      split
      · next hhold => exact .strikes id _ _ (mem_of_subscriber? hu) hhold
      · exact still_of (by simp) (by simp) (by simp) (by simp)
    · exact still_of (by simp) (by simp) (by simp) (by simp)
  | retire id =>
    simp only [act]
    split
    · next hu => exact .retires id _ _ (mem_of_subscriber? hu)
    · exact still_of (by simp) (by simp) (by simp) (by simp)
  | receive id =>
    simp only [act]
    split
    · next hread => exact .reads id hread
    · next hnot =>
      refine .still _ rfl rfl fun i hread he => ?_
      cases he
      exact hnot hread
  | publish channel payload =>
    simp only [act]
    split
    · exact .publishes channel payload
    · exact still_of (by simp) (by simp) (by simp) (by simp)
  | close =>
    simp only [act]
    split
    · exact .closes
    · exact still_of (by simp) (by simp) (by simp) (by simp)
  | letGo => exact .letsGo
  | draw =>
    simp only [act]
    split
    · next hidle =>
      cases hq : s.link.queue with
      | nil =>
        rw [Link.draw_nil hq]
        exact .rests _ (.inl rfl) (by simp [hidle])
      | cons command rest =>
        by_cases hclose : ∃ call, command = .close call
        · obtain ⟨call, rfl⟩ := hclose
          rw [Link.draw_close hidle hq]
          exact .quits call rest hidle hq
        · have hcommand : ∀ call, command ≠ .close call := fun call he => hclose ⟨call, he⟩
          rw [Link.draw_cons hidle hq hcommand]
          exact .takes command rest hidle hq hcommand
    · exact still_of (by simp) (by simp) (by simp) (by simp)
  | send =>
    simp only [act]
    split
    · next command hagent hservice =>
      -- Only an unsubscription from a channel that is wanted is not sent.
      by_cases hskip : ∃ channel, command = .unsubscribe channel ∧
          s.link.listeners.wanted channel = true
      · obtain ⟨channel, rfl, hwanted⟩ := hskip
        rw [Link.check_of_wanted hagent hwanted, if_pos rfl]
        exact .skips channel hagent hservice hwanted
      · have hunwanted : ∀ channel, command = .unsubscribe channel →
            s.link.listeners.wanted channel = false :=
          fun channel he => Bool.eq_false_iff.mpr fun hwanted => hskip ⟨channel, he, hwanted⟩
        have hcheck : s.link.check = s.link := Link.check_of_unwanted fun channel he =>
          hunwanted channel (Agent.executing.inj (hagent.symm.trans he))
        rw [hcheck, hagent, if_neg (by simp)]
        exact .sends command hagent hservice hunwanted
    · exact still_of (by simp) (by simp) (by simp) (by simp)
  | conclude =>
    simp only [act]
    split
    · next r hservice =>
      by_cases hbusy : ∃ command, s.link.agent = .executing command
      · obtain ⟨command, hagent⟩ := hbusy
        rw [Link.reply_of_executing hagent]
        exact .concludes command hagent r hservice
      · have hagent : ∀ command, s.link.agent ≠ .executing command :=
          fun command he => hbusy ⟨command, he⟩
        rw [Link.reply_of_not_executing hagent]
        exact .rests _ (.inr rfl) hagent
    · exact still_of (by simp) (by simp) (by simp) (by simp)
  | deliver =>
    simp only [act]
    split
    · next pub rest hidle hstream => exact .delivers pub rest hidle hstream
    · next hnone =>
      refine .still _ ?_ rfl (by simp)
      unfold delivered
      split
      · next pub rest hidle hstream => exact absurd hstream (hnone _ _ hidle)
      · rfl
  | streamEnd =>
    simp only [act]
    split
    · next hidle hstream =>
      have hend : s.link.streamEnd.1 = s.link.stop.1 := by
        simp [Link.streamEnd, Link.isStopped, hidle]
      rw [hend]
      exact .ends _ (.inl rfl) hidle
    · exact still_of (by simp) (by simp) (by simp) (by simp)
  | desert =>
    simp only [act, Link.desert]
    split
    · split
      · next hdeserted =>
        have hidle : s.link.agent = .idle := by
          simp only [Link.isDeserted, Bool.and_eq_true, beq_iff_eq] at hdeserted
          exact hdeserted.2
        exact .ends _ (.inr rfl) hidle
      · exact still_of (by simp) (by simp) (by simp) (by simp)
    · exact still_of (by simp) (by simp) (by simp) (by simp)
  | serve r applied =>
    simp only [act]
    split
    · next command hagent hservice =>
      split
      · next hdone => exact .serves command hagent hservice r applied hdone
      · next hnot =>
        cases r with
        | ok n => exact absurd rfl hnot
        | error text =>
          cases applied with
          | true => exact absurd rfl hnot
          | false => exact .declines command hagent hservice text
    · next hnone =>
      refine .still _ rfl ?_ (by simp)
      unfold publications
      split
      · cases ‹Act.serve r applied = _›
      · next hagent hservice => exact absurd hservice (hnone _ hagent)
      · rfl
  | speak pub => exact .speaks pub

end System

namespace Link

theorem isStopped_send (command : Command) (l : Link) :
    (l.send command).isStopped = l.isStopped := by
  unfold send
  split
  · rfl
  · split <;> rfl

theorem listeners_retire (channel : Key) (l : Link) :
    (l.retire channel).listeners = l.listeners := by
  unfold retire
  split <;> rfl

theorem isStopped_retire (channel : Key) (l : Link) :
    (l.retire channel).isStopped = l.isStopped := by
  unfold retire
  split <;> rfl

end Link

namespace System

/-- An agent that has stopped does nothing more. -/
theorem running_of_act {s : System} {a : Act} (h : (s.act a).link.isStopped = false) :
    s.link.isStopped = false := by
  -- What the agent does, it does while it is idle or busy.
  have hof : (∀ command, s.link.agent = .executing command → s.link.isStopped = false) ∧
      (s.link.agent = .idle → s.link.isStopped = false) := by
    refine ⟨fun command hagent => ?_, fun hagent => ?_⟩
    · simp [Link.isStopped, hagent]
    · simp [Link.isStopped, hagent]
  have hchange := s.act_change a
  generalize s.act a = s' at hchange h
  cases hchange with
  | still a hnone hsilent hread => exact h
  | registers channel => exact h
  | requests id channel hu => exact (Link.isStopped_send _ _).symm.trans h
  | confirms id channel call hu ho => exact h
  | refuses id channel call hu f ho => exact h
  | desists id channel hu => exact h
  | givesUp id channel call hu => exact h
  | strikes id channel hold hu hhold => exact h
  | retires id channel last hu =>
    cases last with
    | true => exact (Link.isStopped_retire channel s.link).symm.trans h
    | false => exact h
  | reads id hread => exact h
  | publishes channel payload => exact (Link.isStopped_send _ _).symm.trans h
  | closes => exact (Link.isStopped_send _ _).symm.trans h
  | letsGo => exact h
  | takes command rest hidle hq hcommand => exact hof.2 hidle
  | quits call rest hidle hq => exact hof.2 hidle
  | rests a ha hagent => exact h
  | skips channel hagent hservice hwanted => exact hof.1 _ hagent
  | sends command hagent hservice hwanted => exact h
  | serves command hagent hservice r applied hdone => exact h
  | declines command hagent hservice text => exact h
  | concludes command hagent r hservice => exact hof.1 _ hagent
  | delivers pub rest hidle hstream => exact h
  | ends a ha hidle => exact hof.2 hidle
  | speaks pub => exact h

end System

end Roaming.Redis
