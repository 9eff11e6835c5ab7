import Roaming.Proofs.Commands
import Roaming.Proofs.Subscribers

/-!
# Calls of a link

No act puts an old call on a new command or makes up an outcome, so the command of a subscriber who
waits for an outcome is the one to subscribe to its channel (`System.Calling`).
-/

set_option autoImplicit false
set_option relaxedAutoImplicit false

namespace Roaming.Redis

namespace Link

theorem onward_withdraw (call : CallId) (l : Link) : l.Onward (l.withdraw call) :=
  onward_unblock _ l

theorem agent_retire (channel : Key) (l : Link) : (l.retire channel).agent = l.agent := by
  unfold retire
  split <;> rfl

theorem outcomes_retire (channel : Key) (l : Link) : (l.retire channel).outcomes = l.outcomes := by
  unfold retire
  split <;> rfl

theorem onward_retire (channel : Key) (l : Link) : l.Onward (l.retire channel) := by
  unfold retire
  split
  · exact onward_unsubscribe channel l
  · exact .refl l

end Link

namespace System

/-! ### Acts -/

theorem onward_act (s : System) (a : Act) : s.link.Onward (s.act a).link := by
  have hchange := s.act_change a
  generalize s.act a = s' at hchange
  cases hchange with
  | still a hnone hsilent hread => exact .refl _
  | registers channel => exact .same rfl rfl rfl rfl rfl
  | requests id channel hu => exact Link.onward_send rfl
  | confirms id channel call hu ho => exact Link.onward_fetched call s.link
  | refuses id channel call hu f ho => exact Link.onward_fetched call s.link
  | desists id channel hu => exact .refl _
  | givesUp id channel call hu => exact Link.onward_withdraw call s.link
  | strikes id channel hold hu hhold => exact .same rfl rfl rfl rfl rfl
  | retires id channel last hu =>
    cases last with
    | true => exact Link.onward_retire channel s.link
    | false => exact .refl _
  | reads id hread => exact .same rfl rfl rfl rfl rfl
  | publishes channel payload => exact Link.onward_send rfl
  | closes => exact Link.onward_send rfl
  | letsGo => exact .same rfl rfl rfl rfl rfl
  | takes command rest hidle hq hcommand => exact Link.onward_take hq
  | quits call rest hidle hq => exact Link.onward_quit hq
  | rests a ha hagent => exact .refl _
  | skips channel hagent hservice hwanted =>
    exact Link.onward_idle s.link
  | sends command hagent hservice hwanted => exact .refl _
  | serves command hagent hservice r applied hdone => exact .refl _
  | declines command hagent hservice text => exact .refl _
  | concludes command hagent r hservice => exact Link.onward_conclude hagent r
  | delivers pub rest hidle hstream => exact .same rfl rfl rfl rfl rfl
  | ends a ha hidle => exact Link.onward_stop s.link
  | speaks pub => exact .same rfl rfl rfl rfl rfl

/-- Whoever waits for an outcome has a call of its own, which asks for its channel. -/
structure Calling (s : System) : Prop where
  orderly : s.link.Orderly
  waiting : ∀ u ∈ s.subscribers, ∀ call, u.hold = .waiting call → call < s.link.nextCall ∧
    ∀ c ∈ s.link.commands, c.call? = some call → c = .subscribe call u.channel

/-- Who waited before, waits for the same command. -/
theorem Calling.waiting_of {s : System} (h : s.Calling) {l : Link} (hon : s.link.Onward l)
    {u : Subscriber} (hu : u ∈ s.subscribers) {call : CallId} (hcall : u.hold = .waiting call) :
    call < l.nextCall ∧ ∀ c ∈ l.commands, c.call? = some call → c = .subscribe call u.channel := by
  obtain ⟨hlt, hcommand⟩ := h.waiting u hu call hcall
  refine ⟨Nat.lt_of_lt_of_le hlt hon.next_le, fun c hc hcc => ?_⟩
  rcases hon.commands c hc with hold | hnew
  · exact hcommand c hold hcc
  · exact absurd hlt (Nat.not_lt.mpr (hnew call hcc).1)

/-- A subscriber who is put anywhere but in wait, does not wait. -/
private theorem mem_of_mem_put {s : System} {id : ListenerId} {hold : Hold} {u : Subscriber}
    (hu : u ∈ (s.put id hold).subscribers) (hne : u.hold ≠ hold) : u ∈ s.subscribers := by
  rcases mem_put.mp hu with ⟨hmem, -⟩ | ⟨v, -, -, rfl⟩
  · exact hmem
  · exact absurd rfl hne

theorem Calling.act {s : System} (h : s.Calling) (hs : s.Seated) (a : Act) :
    (s.act a).Calling := by
  have hon := s.onward_act a
  refine ⟨h.orderly.onward hon, ?_⟩
  have hchange := s.act_change a
  generalize s.act a = s' at hchange hon
  have hold : ∀ u, u ∈ s.subscribers → ∀ call, u.hold = .waiting call → call < s'.link.nextCall ∧
      ∀ c ∈ s'.link.commands, c.call? = some call → c = .subscribe call u.channel :=
    fun u hu call hcall => h.waiting_of hon hu hcall
  have hput : ∀ id hold', (∀ call, hold' ≠ .waiting call) →
      ∀ u ∈ (s.put id hold').subscribers, ∀ call, u.hold = .waiting call →
        call < s'.link.nextCall ∧
        ∀ c ∈ s'.link.commands, c.call? = some call → c = .subscribe call u.channel := by
    intro id hold' hnot u hu call hcall
    refine hold u (mem_of_mem_put hu ?_) call hcall
    rw [hcall]
    exact Ne.symm (hnot call)
  cases hchange with
  | registers channel =>
    intro u hu call hcall
    rcases List.mem_append.mp hu with hu | hu
    · exact hold u hu call hcall
    · rw [List.mem_singleton.mp hu] at hcall
      cases hcall
  | requests id channel hu =>
    intro u hmem call hcall
    rcases (hs.mem_put_iff hu).mp hmem with ⟨hmem, -⟩ | rfl
    · exact hold u hmem call hcall
    · -- The call is new, so that no command but this one has it.
      cases hcall
      refine ⟨Nat.lt_succ_self _, fun c hc hcc => ?_⟩
      rcases Link.mem_commands_send hc with hc | rfl
      · exact absurd (h.orderly.commands_lt c hc _ hcc) (Nat.lt_irrefl _)
      · rfl
  | confirms id channel call hu ho => exact hput id .held (by simp)
  | refuses id channel call hu f ho => exact hput id .failed (by simp)
  | desists id channel hu => exact hput id .failed (by simp)
  | givesUp id channel call hu => exact hput id .failed (by simp)
  | strikes id channel hold' hu hhold => exact hput id _ (by simp)
  | retires id channel last hu => exact fun u hmem => hold u (mem_without.mp hmem).1
  | still a hnone hsilent hread => exact hold
  | reads id hread => exact hold
  | publishes channel payload => exact hold
  | closes => exact hold
  | letsGo => exact hold
  | takes command rest hidle hq hcommand => exact hold
  | quits call rest hidle hq => exact hold
  | rests a ha hagent => exact hold
  | skips channel hagent hservice hwanted => exact hold
  | sends command hagent hservice hwanted => exact hold
  | serves command hagent hservice r applied hdone => exact hold
  | declines command hagent hservice text => exact hold
  | concludes command hagent r hservice => exact hold
  | delivers pub rest hidle hstream => exact hold
  | ends a ha hidle => exact hold
  | speaks pub => exact hold

end System

end Roaming.Redis
