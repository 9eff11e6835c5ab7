import Roaming.Proofs.Stopping

/-!
# What becomes of calls

Each turn of a tenure comes to one of a few deals about its calls (`Book.Deal`). They keep the books
in order (`Book.Kept`): a command that is not done with belongs to the call that handed it in, a
call that waits has its command there or an outcome, and an outcome is what the agent has made of
the command or what is left when the queue is dropped.
-/

set_option autoImplicit false
set_option relaxedAutoImplicit false

namespace Roaming.Redis

namespace Command

theorem exists_abandoned {c : Command} {call : CallId} (reason : String) (h : c.call? = some call) :
    ∃ r, (call, r) ∈ c.abandoned reason := by
  cases c with
  | unsubscribe channel => cases h
  | publish k channel payload => cases h; exact ⟨_, List.mem_singleton_self _⟩
  | subscribe k channel => cases h; exact ⟨_, List.mem_singleton_self _⟩
  | close k => cases h; exact ⟨_, List.mem_singleton_self _⟩

end Command

theorem Link.exists_conclude {c : Command} {call : CallId} (r : BrokerReply)
    (h : c.call? = some call) : ∃ o, (call, o) ∈ (conclude c r).1 := by
  cases c with
  | unsubscribe channel => cases h
  | publish k channel payload => cases h; cases r <;> exact ⟨_, List.mem_singleton_self _⟩
  | subscribe k channel => cases h; cases r <;> exact ⟨_, List.mem_singleton_self _⟩
  | close k => cases h; exact ⟨_, List.mem_singleton_self _⟩

theorem getElem?_moved {call i : CallId} {progress : Progress} {calls : List Call} :
    (moved call progress calls)[i]? =
      if call = i then calls[i]?.map fun x => { x with progress } else calls[i]? := by
  rw [moved, List.getElem?_modify]
  cases calls[i]? <;> split <;> rfl

theorem length_moved (call : CallId) (progress : Progress) (calls : List Call) :
    (moved call progress calls).length = calls.length :=
  List.length_modify _ _ _

theorem length_settle (o : Option (CallId × Progress)) (calls : List Call) :
    (settle o calls).length = calls.length := by
  cases o with
  | none => rfl
  | some o => exact length_moved o.1 o.2 calls

/-- The command of a call stays the same. -/
theorem moved_eq_some {call i : CallId} {progress progress' : Progress} {calls : List Call}
    {command : Command} (h : (moved call progress calls)[i]? = some ⟨command, progress'⟩) :
    call ≠ i ∧ calls[i]? = some ⟨command, progress'⟩ ∨
      call = i ∧ progress' = progress ∧ ∃ earlier, calls[i]? = some ⟨command, earlier⟩ := by
  rw [getElem?_moved] at h
  split at h
  · next he =>
    obtain ⟨x, hx, hmoved⟩ := Option.map_eq_some_iff.mp h
    obtain ⟨command', earlier⟩ := x
    cases hmoved
    exact .inr ⟨he, rfl, earlier, hx⟩
  · next hne => exact .inl ⟨hne, h⟩

theorem exists_moved {call i : CallId} {progress earlier : Progress} {calls : List Call}
    {command : Command} (h : calls[i]? = some ⟨command, earlier⟩) :
    ∃ later, (moved call progress calls)[i]? = some ⟨command, later⟩ := by
  rw [getElem?_moved, h]
  split
  · exact ⟨progress, rfl⟩
  · exact ⟨earlier, rfl⟩

/-- A call that is added is the last. -/
theorem getElem?_added {calls : List Call} {x y : Call} {i : CallId}
    (h : (calls ++ [x])[i]? = some y) : calls[i]? = some y ∨ i = calls.length ∧ y = x := by
  rcases Nat.lt_trichotomy i calls.length with hlt | rfl | hgt
  · exact .inl (by rwa [List.getElem?_append_left hlt] at h)
  · rw [List.getElem?_concat_length] at h
    exact .inr ⟨rfl, (Option.some.inj h).symm⟩
  · rw [List.getElem?_eq_none (by rw [List.length_append, List.length_singleton]; exact hgt)] at h
    cases h

theorem getElem?_of_added {calls : List Call} {x y : Call} {i : CallId}
    (h : calls[i]? = some y) : (calls ++ [x])[i]? = some y := by
  rw [List.getElem?_append_left (List.getElem?_eq_some_iff.mp h).1, h]

/-- What is known of the calls of a tenure: the commands that are not done with, the outcomes that
are not fetched, and how far the calls and the agent have come. -/
structure Book where
  commands : List Command
  outcomes : List (CallId × Except Failure Unit)
  calls : List Call
  taken : List Command
  phase : Phase
  hasTask : Bool

namespace Book

/-- What a turn does to the calls. -/
inductive Deal (b : Book) : Book → Prop where
  | nothing : Deal b b
  | retires (channel : Key) (hphase : b.phase.isDropped = false) :
      Deal b { b with commands := b.commands ++ [.unsubscribe channel] }
  | skips (channel : Key) (rest : List Command) (hc : b.commands = .unsubscribe channel :: rest) :
      Deal b { b with commands := rest }
  | hands (command : Command) (hcall : command.call? = some b.calls.length)
      (hphase : b.phase.isDropped = false) :
      Deal b { b with
        commands := b.commands ++ [command]
        calls := b.calls ++ [⟨command, .waiting⟩] }
  | refuses (command : Command) (hcall : command.call? = some b.calls.length)
      (hphase : b.phase.isDropped = true) (reason : String) :
      Deal b { b with
        outcomes := b.outcomes ++ command.abandoned reason
        calls := b.calls ++ [⟨command, .waiting⟩] }
  | fetches (call : CallId) (command : Command) (r : Except Failure Unit)
      (hx : b.calls[call]? = some ⟨command, .waiting⟩) (ho : (call, r) ∈ b.outcomes)
      (hcommand : ∀ k, command ≠ .close k) :
      Deal b { b with
        outcomes := b.outcomes.filter (·.1 ≠ call), calls := moved call (.returned r) b.calls }
  | hears (call k : CallId) (r : Except Failure Unit)
      (hx : b.calls[call]? = some ⟨.close k, .waiting⟩) (ho : (call, r) ∈ b.outcomes) :
      Deal b { b with
        outcomes := b.outcomes.filter (·.1 ≠ call), calls := moved call .answered b.calls }
  | leaves (call : CallId) (commands : List Command) (hsub : ∀ c ∈ commands, c ∈ b.commands)
      (hkept : ∀ c ∈ b.commands, c.call? ≠ some call → c ∈ commands) :
      Deal b { b with commands, calls := moved call .givenUp b.calls }
  | takes (command : Command) (rest : List Command) (hc : b.commands = command :: rest)
      (hcommand : ∀ k, command ≠ .close k) (hphase : b.phase = .serving) :
      Deal b { b with taken := b.taken ++ [command] }
  | concludes (command : Command) (rest : List Command) (hc : b.commands = command :: rest)
      (hcommand : ∀ k, command ≠ .close k) (htaken : command ∈ b.taken) (r : Link.BrokerReply) :
      Deal b { b with commands := rest, outcomes := b.outcomes ++ (Link.conclude command r).1 }
  | quits (call : CallId) (rest : List Command) (hc : b.commands = .close call :: rest)
      (hphase : b.phase = .serving) :
      Deal b { b with
        commands := rest
        outcomes := b.outcomes ++ [(call, .ok ())]
        taken := b.taken ++ [.close call]
        phase := .leaving }
  | ends (hphase : b.phase = .serving) : Deal b { b with phase := .leaving }
  | clears (hphase : b.phase = .leaving) : Deal b { b with phase := .cleared }
  | drops (queue blocked : List Command) (hc : b.commands = queue ++ blocked)
      (reason reason' : String) :
      Deal b { b with
        commands := []
        outcomes := b.outcomes ++ queue.flatMap (Command.abandoned reason) ++
          blocked.flatMap (Command.abandoned reason')
        phase := .dropped }
  | finishes (hphase : b.phase = .dropped) : Deal b { b with phase := .finished }
  | claims (call k : CallId) (hx : b.calls[call]? = some ⟨.close k, .answered⟩) :
      Deal b { b with
        calls := moved call (if b.hasTask then .joining else .returned (.ok ())) b.calls
        hasTask := false }
  | joins (call k : CallId) (hx : b.calls[call]? = some ⟨.close k, .joining⟩)
      (hphase : b.phase = .finished) :
      Deal b { b with calls := moved call (.returned (.ok ())) b.calls }

/-- Whether an outcome is one for a command: whatever the agent made of it once it had taken it, or
what is left for it otherwise. -/
def Earned (b : Book) (command : Command) (o : CallId × Except Failure Unit) : Prop :=
  command ∈ b.taken ∨ ∃ reason, o ∈ command.abandoned reason

/-- Whether a call to close has an outcome, and has not looked for the agent's task. -/
def Due (b : Book) (call : CallId) : Prop :=
  ∃ k, (∃ r, (call, r) ∈ b.outcomes) ∧ b.calls[call]? = some ⟨.close k, .waiting⟩ ∨
    b.calls[call]? = some ⟨.close k, .answered⟩

/-- What is true of the calls at all times. -/
structure Kept (b : Book) : Prop where
  named : ∀ (i : CallId) (x : Call), b.calls[i]? = some x → x.command.call? = some i
  handed : ∀ c ∈ b.commands, ∀ call, c.call? = some call →
    ∃ progress, b.calls[call]? = some ⟨c, progress⟩
  known : ∀ c ∈ b.taken, ∀ call, c.call? = some call →
    ∃ progress, b.calls[call]? = some ⟨c, progress⟩
  outcomes : ∀ o ∈ b.outcomes, ∃ command progress,
    b.calls[o.1]? = some ⟨command, progress⟩ ∧ b.Earned command o
  returned : ∀ (i : CallId) (command : Command) (r : Except Failure Unit),
    b.calls[i]? = some ⟨command, .returned r⟩ → b.Earned command (i, r)
  waiting : ∀ (i : CallId) (command : Command), b.calls[i]? = some ⟨command, .waiting⟩ →
    command ∈ b.commands ∨ ∃ r, (i, r) ∈ b.outcomes
  /-- Only calls to close look for the agent's task. -/
  closing : ∀ (i : CallId) (x : Call), b.calls[i]? = some x →
    x.progress = .answered ∨ x.progress = .joining → ∃ k, x.command = .close k
  dropped : b.phase.isDropped = true → b.commands = []
  /-- Until the queue is dropped, at most the call to close that the agent took has an outcome, and
  the agent's task is there for it. -/
  due : b.phase.isDropped = false → ∀ i, b.Due i →
    b.phase ≠ .serving ∧ b.taken.getLast? = some (.close i) ∧ b.hasTask = true
  closed : ∀ (i k : CallId) (r : Except Failure Unit),
    b.calls[i]? = some ⟨.close k, .returned r⟩ → r = .ok () ∧ b.phase.isDropped = true
  task : b.phase = .serving → b.hasTask = true

variable {b b' : Book}

theorem Earned.mono {command : Command} {o : CallId × Except Failure Unit} (h : b.Earned command o)
    (htaken : ∀ c ∈ b.taken, c ∈ b'.taken) : b'.Earned command o :=
  h.imp_left (htaken command)

/-! ### What is not lost -/

theorem Deal.exists_call (h : b.Deal b') {i : CallId} {command : Command} {progress : Progress}
    (hx : b.calls[i]? = some ⟨command, progress⟩) :
    ∃ progress', b'.calls[i]? = some ⟨command, progress'⟩ := by
  cases h with
  | hands | refuses => exact ⟨progress, getElem?_of_added hx⟩
  | fetches | hears | leaves | claims | joins => exact exists_moved hx
  | _ => exact ⟨progress, hx⟩

theorem Deal.taken_mono (h : b.Deal b') : ∀ c ∈ b.taken, c ∈ b'.taken := by
  cases h with
  | takes | quits => exact fun c => List.mem_append_left _
  | _ => exact fun c => id

/-- A call is an old one, or has just handed its command in. -/
theorem Deal.call_of (h : b.Deal b') {i : CallId} {command : Command} {progress : Progress}
    (hx : b'.calls[i]? = some ⟨command, progress⟩) :
    (∃ earlier, b.calls[i]? = some ⟨command, earlier⟩) ∨ command.call? = some i := by
  have hmoved : ∀ {call later}, (moved call later b.calls)[i]? = some ⟨command, progress⟩ →
      ∃ earlier, b.calls[i]? = some ⟨command, earlier⟩ := by
    intro call later hx
    rcases moved_eq_some hx with ⟨-, hold⟩ | ⟨-, -, hold⟩
    · exact ⟨progress, hold⟩
    · exact hold
  have hadded : ∀ {new : Command}, new.call? = some b.calls.length →
      (b.calls ++ [⟨new, .waiting⟩])[i]? = some ⟨command, progress⟩ →
      (∃ earlier, b.calls[i]? = some ⟨command, earlier⟩) ∨ command.call? = some i := by
    intro new hcall hx
    rcases getElem?_added hx with hold | ⟨rfl, he⟩
    · exact .inl ⟨progress, hold⟩
    · cases he
      exact .inr hcall
  cases h with
  | hands new hcall | refuses new hcall => exact hadded hcall hx
  | fetches | hears | leaves | claims | joins => exact .inl (hmoved hx)
  | _ => exact .inl ⟨progress, hx⟩

/-- A command is an old one, or belongs to no call, or has just been handed in. -/
theorem Deal.command_of (h : b.Deal b') {c : Command} (hc : c ∈ b'.commands) :
    c ∈ b.commands ∨ c.call? = none ∨
      ∃ call, c.call? = some call ∧ b'.calls[call]? = some ⟨c, .waiting⟩ := by
  cases h with
  | retires channel hphase =>
    refine (List.mem_append.mp hc).imp_right fun hc => .inl ?_
    rw [List.mem_singleton.mp hc]
    rfl
  | hands command hcall hphase =>
    refine (List.mem_append.mp hc).imp_right fun hc => .inr ⟨b.calls.length, ?_⟩
    rw [List.mem_singleton.mp hc]
    exact ⟨hcall, List.getElem?_concat_length⟩
  | skips channel rest hold | concludes _ rest hold | quits _ rest hold =>
    exact .inl (hold ▸ List.mem_cons_of_mem _ hc)
  | leaves call commands hsub hkept => exact .inl (hsub c hc)
  | drops => cases hc
  | _ => exact .inl hc

/-- An outcome is an old one, or is that of a command that was not done with or of a new call. -/
theorem Deal.outcome_of (h : b.Deal b') {o : CallId × Except Failure Unit} (ho : o ∈ b'.outcomes) :
    o ∈ b.outcomes ∨ ∃ command, b'.Earned command o ∧ command.call? = some o.1 ∧
      (command ∈ b.commands ∨ b'.calls[o.1]? = some ⟨command, .waiting⟩) := by
  have habandoned : ∀ {reason : String} {commands : List Command},
      (∀ c ∈ commands, c ∈ b.commands) → o ∈ commands.flatMap (Command.abandoned reason) →
      ∃ command, b'.Earned command o ∧ command.call? = some o.1 ∧
        (command ∈ b.commands ∨ b'.calls[o.1]? = some ⟨command, .waiting⟩) := by
    intro reason commands hsub hmem
    obtain ⟨c, hc, hmem⟩ := List.mem_flatMap.mp hmem
    exact ⟨c, .inr ⟨reason, hmem⟩, Link.call?_of_mem_abandoned hmem, .inl (hsub c hc)⟩
  cases h with
  | fetches | hears => exact .inl (List.mem_filter.mp ho).1
  | refuses command hcall hphase reason =>
    refine (List.mem_append.mp ho).imp_right fun hmem => ⟨command, .inr ⟨reason, hmem⟩, ?_⟩
    have hnew := Link.call?_of_mem_abandoned hmem
    refine ⟨hnew, .inr ?_⟩
    rw [← Option.some.inj (hcall.symm.trans hnew)]
    exact List.getElem?_concat_length
  | concludes command rest hc hcommand htaken r =>
    refine (List.mem_append.mp ho).imp_right fun hmem => ⟨command, .inl htaken, ?_⟩
    exact ⟨Link.call?_of_mem_conclude hmem, .inl (hc ▸ List.mem_cons_self)⟩
  | quits call rest hc hphase =>
    refine (List.mem_append.mp ho).imp_right fun hmem => ?_
    rw [List.mem_singleton.mp hmem]
    exact ⟨.close call, .inr ⟨"", List.mem_singleton_self _⟩, rfl, .inl (hc ▸ List.mem_cons_self)⟩
  | drops queue blocked hc reason reason' =>
    rcases List.mem_append.mp ho with ho | ho
    · refine (List.mem_append.mp ho).imp_right (habandoned fun c hmem => ?_)
      exact hc ▸ List.mem_append_left _ hmem
    · refine .inr (habandoned (fun c hmem => ?_) ho)
      exact hc ▸ List.mem_append_right _ hmem
  | _ => exact .inl ho

/-! ### What the deals keep up -/

namespace Kept

theorem named_deal (h : b.Kept) (hd : b.Deal b') (i : CallId) (x : Call)
    (hx : b'.calls[i]? = some x) : x.command.call? = some i := by
  rcases hd.call_of hx with ⟨earlier, hold⟩ | hnew
  · exact h.named i ⟨_, earlier⟩ hold
  · exact hnew

theorem handed_deal (h : b.Kept) (hd : b.Deal b') (c : Command) (hc : c ∈ b'.commands)
    (call : CallId) (hcall : c.call? = some call) :
    ∃ progress, b'.calls[call]? = some ⟨c, progress⟩ := by
  rcases hd.command_of hc with hold | hnone | ⟨call', hnew, hx⟩
  · obtain ⟨progress, hx⟩ := h.handed c hold call hcall
    exact hd.exists_call hx
  · rw [hnone] at hcall
    cases hcall
  · rw [Option.some.inj (hcall.symm.trans hnew)]
    exact ⟨.waiting, hx⟩

theorem known_deal (h : b.Kept) (hd : b.Deal b') (c : Command) (hc : c ∈ b'.taken) (call : CallId)
    (hcall : c.call? = some call) : ∃ progress, b'.calls[call]? = some ⟨c, progress⟩ := by
  have hold : c ∈ b.taken ∨ c ∈ b.commands → ∃ progress, b'.calls[call]? = some ⟨c, progress⟩ := by
    intro hc
    obtain ⟨progress, hx⟩ := hc.elim (h.known c · call hcall) (h.handed c · call hcall)
    exact hd.exists_call hx
  cases hd with
  | takes command rest hcommands =>
    refine hold ((List.mem_append.mp hc).imp_right fun hc => ?_)
    rw [List.mem_singleton.mp hc, hcommands]
    exact List.mem_cons_self
  | quits k rest hcommands =>
    refine hold ((List.mem_append.mp hc).imp_right fun hc => ?_)
    rw [List.mem_singleton.mp hc, hcommands]
    exact List.mem_cons_self
  | _ => exact hold (.inl hc)

theorem outcomes_deal (h : b.Kept) (hd : b.Deal b') (o : CallId × Except Failure Unit)
    (ho : o ∈ b'.outcomes) : ∃ command progress,
      b'.calls[o.1]? = some ⟨command, progress⟩ ∧ b'.Earned command o := by
  rcases hd.outcome_of ho with hold | ⟨command, hearned, hcall, hmem | hx⟩
  · obtain ⟨command, progress, hx, hearned⟩ := h.outcomes o hold
    obtain ⟨later, hx'⟩ := hd.exists_call hx
    exact ⟨command, later, hx', hearned.mono hd.taken_mono⟩
  · obtain ⟨progress, hx⟩ := h.handed command hmem o.1 hcall
    obtain ⟨later, hx'⟩ := hd.exists_call hx
    exact ⟨command, later, hx', hearned⟩
  · exact ⟨command, .waiting, hx, hearned⟩

/-- The outcome of a call is one for its command. -/
theorem earned_of_mem (h : b.Kept) {i : CallId} {command : Command} {progress : Progress}
    {r : Except Failure Unit} (hx : b.calls[i]? = some ⟨command, progress⟩)
    (ho : (i, r) ∈ b.outcomes) : b.Earned command (i, r) := by
  obtain ⟨command', progress', hx', hearned⟩ := h.outcomes _ ho
  cases hx.symm.trans hx'
  exact hearned

theorem returned_deal (h : b.Kept) (hd : b.Deal b') (i : CallId) (command : Command)
    (r : Except Failure Unit) (hx : b'.calls[i]? = some ⟨command, .returned r⟩) :
    b'.Earned command (i, r) := by
  have hold : b.calls[i]? = some ⟨command, .returned r⟩ → b'.Earned command (i, r) :=
    fun hx => (h.returned i command r hx).mono hd.taken_mono
  have hadded : ∀ {new : Command},
      (b.calls ++ [⟨new, .waiting⟩])[i]? = some ⟨command, .returned r⟩ →
      b'.Earned command (i, r) := by
    intro new hx
    rcases getElem?_added hx with hx | ⟨-, he⟩
    · exact hold hx
    · cases he
  -- A call to close always returns what would be left for it anyway.
  have hclose : ∀ {call k : CallId} {progress later : Progress},
      b.calls[call]? = some ⟨.close k, progress⟩ →
      (later = .answered ∨ later = .joining ∨ later = .returned (.ok ())) →
      (moved call later b.calls)[i]? = some ⟨command, .returned r⟩ → b'.Earned command (i, r) := by
    intro call k progress later hcall hlater hx
    rcases moved_eq_some hx with ⟨-, hx⟩ | ⟨rfl, he, earlier, hx⟩
    · exact hold hx
    · cases hcall.symm.trans hx
      have hk : k = call := Option.some.inj (h.named call _ hcall)
      rcases hlater with rfl | rfl | rfl
      · cases he
      · cases he
      · cases he
        exact .inr ⟨"", hk ▸ List.mem_singleton_self _⟩
  cases hd with
  | hands | refuses => exact hadded hx
  | fetches call command' r' hcall ho hcommand =>
    rcases moved_eq_some hx with ⟨-, hx⟩ | ⟨rfl, he, earlier, hfrom⟩
    · exact hold hx
    · cases he
      exact h.earned_of_mem hfrom ho
  | leaves =>
    rcases moved_eq_some hx with ⟨-, hx⟩ | ⟨-, he, -⟩
    · exact hold hx
    · cases he
  | hears call k r' hcall ho => exact hclose hcall (.inl rfl) hx
  | claims call k hcall =>
    refine hclose hcall (.inr ?_) hx
    split
    · exact .inl rfl
    · exact .inr rfl
  | joins call k hcall hphase => exact hclose hcall (.inr (.inr rfl)) hx
  | _ => exact hold hx

theorem waiting_deal (h : b.Kept) (hd : b.Deal b') (i : CallId) (command : Command)
    (hx : b'.calls[i]? = some ⟨command, .waiting⟩) :
    command ∈ b'.commands ∨ ∃ r, (i, r) ∈ b'.outcomes := by
  have hold : b.calls[i]? = some ⟨command, .waiting⟩ →
      (command ∈ b.commands → command ∈ b'.commands ∨ ∃ r, (i, r) ∈ b'.outcomes) →
      (∀ r, (i, r) ∈ b.outcomes → (i, r) ∈ b'.outcomes) →
      command ∈ b'.commands ∨ ∃ r, (i, r) ∈ b'.outcomes := by
    intro hx hcommand houtcome
    rcases h.waiting i command hx with hmem | ⟨r, ho⟩
    · exact hcommand hmem
    · exact .inr ⟨r, houtcome r ho⟩
  -- Whoever is moved on, does not wait any more.
  have hmoved : ∀ {call : CallId} {later : Progress}, later ≠ .waiting →
      (moved call later b.calls)[i]? = some ⟨command, .waiting⟩ →
      call ≠ i ∧ b.calls[i]? = some ⟨command, .waiting⟩ := by
    intro call later hlater hx
    rcases moved_eq_some hx with hother | ⟨-, he, -⟩
    · exact hother
    · exact absurd he.symm hlater
  have hfilter : ∀ {call : CallId}, call ≠ i → ∀ r, (i, r) ∈ b.outcomes →
      (i, r) ∈ b.outcomes.filter (·.1 ≠ call) :=
    fun hne r ho => List.mem_filter.mpr ⟨ho, decide_eq_true hne.symm⟩
  cases hd with
  | nothing | takes | ends | clears | finishes => exact hold hx .inl fun _ => id
  | retires channel hphase =>
    exact hold hx (fun hmem => .inl (List.mem_append_left _ hmem)) fun _ => id
  | skips channel rest hc =>
    refine hold hx (fun hmem => .inl ?_) fun _ => id
    rcases List.mem_cons.mp (hc ▸ hmem) with rfl | hmem
    · cases h.named i _ hx
    · exact hmem
  | hands new hcall hphase =>
    rcases getElem?_added hx with hx | ⟨-, he⟩
    · exact hold hx (fun hmem => .inl (List.mem_append_left _ hmem)) fun _ => id
    · cases he
      exact .inl (List.mem_append_right _ (List.mem_singleton_self _))
  | refuses new hcall hphase reason =>
    rcases getElem?_added hx with hx | ⟨rfl, he⟩
    · exact hold hx .inl fun r => List.mem_append_left _
    · cases he
      obtain ⟨r, hr⟩ := Command.exists_abandoned reason hcall
      exact .inr ⟨r, List.mem_append_right _ hr⟩
  | fetches call command' r' hcall ho hcommand =>
    obtain ⟨hne, hx⟩ := hmoved (by simp) hx
    exact hold hx .inl (hfilter hne)
  | hears call k r' hcall ho =>
    obtain ⟨hne, hx⟩ := hmoved (by simp) hx
    exact hold hx .inl (hfilter hne)
  | leaves call commands hsub hkept =>
    obtain ⟨hne, hx⟩ := hmoved (by simp) hx
    refine hold hx (fun hmem => .inl (hkept command hmem ?_)) fun _ => id
    rw [h.named i _ hx]
    exact fun he => hne (Option.some.inj he).symm
  | concludes command' rest hc hcommand htaken r =>
    refine hold hx (fun hmem => ?_) fun r => List.mem_append_left _
    rcases List.mem_cons.mp (hc ▸ hmem) with rfl | hmem
    · obtain ⟨r', hr'⟩ := Link.exists_conclude r (h.named i _ hx)
      exact .inr ⟨r', List.mem_append_right _ hr'⟩
    · exact .inl hmem
  | quits call rest hc hphase =>
    refine hold hx (fun hmem => ?_) fun r => List.mem_append_left _
    rcases List.mem_cons.mp (hc ▸ hmem) with rfl | hmem
    · rw [← Option.some.inj (h.named i _ hx)]
      exact .inr ⟨.ok (), List.mem_append_right _ (List.mem_singleton_self _)⟩
    · exact .inl hmem
  | drops queue blocked hc reason reason' =>
    refine hold hx (fun hmem => .inr ?_) fun r ho =>
      List.mem_append_left _ (List.mem_append_left _ ho)
    rcases List.mem_append.mp (hc ▸ hmem) with hmem | hmem
    · obtain ⟨r, hr⟩ := Command.exists_abandoned reason (h.named i _ hx)
      have hlost := List.mem_flatMap.mpr ⟨command, hmem, hr⟩
      exact ⟨r, List.mem_append_left _ (List.mem_append_right _ hlost)⟩
    · obtain ⟨r, hr⟩ := Command.exists_abandoned reason' (h.named i _ hx)
      exact ⟨r, List.mem_append_right _ (List.mem_flatMap.mpr ⟨command, hmem, hr⟩)⟩
  | claims call k hcall =>
    obtain ⟨-, hx⟩ := hmoved (by split <;> simp) hx
    exact hold hx .inl fun _ => id
  | joins call k hcall hphase =>
    obtain ⟨-, hx⟩ := hmoved (by simp) hx
    exact hold hx .inl fun _ => id

theorem closing_deal (h : b.Kept) (hd : b.Deal b') (i : CallId) (x : Call)
    (hx : b'.calls[i]? = some x) (hopen : x.progress = .answered ∨ x.progress = .joining) :
    ∃ k, x.command = .close k := by
  obtain ⟨command, progress⟩ := x
  have hadded : ∀ {new : Command},
      (b.calls ++ [⟨new, .waiting⟩])[i]? = some ⟨command, progress⟩ →
      ∃ k, command = .close k := by
    intro new hx
    rcases getElem?_added hx with hx | ⟨-, he⟩
    · exact h.closing i _ hx hopen
    · cases he
      rcases hopen with he | he <;> cases he
  have hmoved : ∀ {call : CallId} {command' : Command} {earlier later : Progress},
      b.calls[call]? = some ⟨command', earlier⟩ →
      ((∃ k, command' = .close k) ∨ later ≠ .answered ∧ later ≠ .joining) →
      (moved call later b.calls)[i]? = some ⟨command, progress⟩ → ∃ k, command = .close k := by
    intro call command' earlier later hcall hlater hx
    rcases moved_eq_some hx with ⟨-, hx⟩ | ⟨rfl, rfl, earlier', hfrom⟩
    · exact h.closing i _ hx hopen
    · cases hcall.symm.trans hfrom
      rcases hlater with hclose | ⟨hanswered, hjoining⟩
      · exact hclose
      · exact absurd hopen (not_or.mpr ⟨hanswered, hjoining⟩)
  cases hd with
  | hands | refuses => exact hadded hx
  | fetches call command' r hcall ho hcommand => exact hmoved hcall (.inr (by simp)) hx
  | hears call k r hcall ho => exact hmoved hcall (.inl ⟨k, rfl⟩) hx
  | leaves call commands hsub hkept =>
    rcases moved_eq_some hx with ⟨-, hx⟩ | ⟨-, rfl, -⟩
    · exact h.closing i _ hx hopen
    · rcases hopen with he | he <;> cases he
  | claims call k hcall => exact hmoved hcall (.inl ⟨k, rfl⟩) hx
  | joins call k hcall hphase => exact hmoved hcall (.inl ⟨k, rfl⟩) hx
  | _ => exact h.closing i _ hx hopen

theorem dropped_deal (h : b.Kept) (hd : b.Deal b') (hdropped : b'.phase.isDropped = true) :
    b'.commands = [] := by
  have hnone : ∀ {c : Command} {rest : List Command}, b.commands = c :: rest →
      b.phase.isDropped = true → rest = [] := by
    intro c rest hc hdropped
    rw [h.dropped hdropped] at hc
    cases hc
  cases hd with
  | retires channel hphase => cases hphase.symm.trans hdropped
  | hands command hcall hphase => cases hphase.symm.trans hdropped
  | skips channel rest hc => exact hnone hc hdropped
  | concludes command rest hc hcommand htaken r => exact hnone hc hdropped
  | leaves call commands hsub hkept =>
    refine List.eq_nil_iff_forall_not_mem.mpr fun c hc => ?_
    have hold := hsub c hc
    rw [h.dropped hdropped] at hold
    cases hold
  | quits | ends | clears => cases hdropped
  | drops => rfl
  | finishes hphase => exact h.dropped (hphase ▸ rfl)
  | _ => exact h.dropped hdropped

theorem due_deal (h : b.Kept) (hd : b.Deal b') (hnot : b'.phase.isDropped = false) (i : CallId)
    (hdue : b'.Due i) :
    b'.phase ≠ .serving ∧ b'.taken.getLast? = some (.close i) ∧ b'.hasTask = true := by
  have hserving : b.phase = .serving → ¬ b.Due i := fun hphase hdue =>
    (h.due (hphase ▸ rfl) i hdue).1 hphase
  have hfilter : ∀ {call : CallId} {r : Except Failure Unit},
      (i, r) ∈ b.outcomes.filter (·.1 ≠ call) → (i, r) ∈ b.outcomes :=
    fun ho => (List.mem_filter.mp ho).1
  -- Whoever has come to anything but an answer, was due before if it is due now.
  have hmoved :
      ∀ {call : CallId} {later : Progress} {outcomes : List (CallId × Except Failure Unit)},
      later ≠ .waiting → later ≠ .answered →
      (∀ r, (i, r) ∈ outcomes → (i, r) ∈ b.outcomes) →
      (∃ k, (∃ r, (i, r) ∈ outcomes) ∧ (moved call later b.calls)[i]? = some ⟨.close k, .waiting⟩ ∨
        (moved call later b.calls)[i]? = some ⟨.close k, .answered⟩) → call ≠ i ∧ b.Due i := by
    rintro call later outcomes hwaiting hanswered hsub ⟨k, ⟨⟨r, ho⟩, hx⟩ | hx⟩
    · rcases moved_eq_some hx with ⟨hne, hx⟩ | ⟨-, he, -⟩
      · exact ⟨hne, k, .inl ⟨⟨r, hsub r ho⟩, hx⟩⟩
      · exact absurd he.symm hwaiting
    · rcases moved_eq_some hx with ⟨hne, hx⟩ | ⟨-, he, -⟩
      · exact ⟨hne, k, .inr hx⟩
      · exact absurd he.symm hanswered
  cases hd with
  | nothing | retires | skips => exact h.due hnot i hdue
  | refuses command hcall hphase reason => cases hphase.symm.trans hnot
  | drops | finishes => cases hnot
  | joins call k hx hphase =>
    rw [show _ = Phase.finished from hphase] at hnot
    cases hnot
  | takes command rest hc hcommand hphase => exact absurd hdue (hserving hphase)
  | ends hphase => exact absurd hdue (hserving hphase)
  | clears hphase =>
    obtain ⟨-, hlast, htask⟩ := h.due (hphase ▸ rfl) i hdue
    exact ⟨by simp, hlast, htask⟩
  | hands command hcall hphase =>
    refine h.due hphase i ?_
    obtain ⟨k, ⟨⟨r, ho⟩, hx⟩ | hx⟩ := hdue
    · rcases getElem?_added hx with hx | ⟨rfl, -⟩
      · exact ⟨k, .inl ⟨⟨r, ho⟩, hx⟩⟩
      · -- Nothing is known of a call before it is made.
        obtain ⟨command', progress, hnew, -⟩ := h.outcomes _ ho
        rw [List.getElem?_eq_none (Nat.le_refl _)] at hnew
        cases hnew
    · rcases getElem?_added hx with hx | ⟨-, he⟩
      · exact ⟨k, .inr hx⟩
      · cases he
  | fetches call command r hx ho hcommand =>
    exact h.due hnot i (hmoved (by simp) (by simp) (fun r => hfilter) hdue).2
  | leaves call commands hsub hkept =>
    exact h.due hnot i (hmoved (by simp) (by simp) (fun r => id) hdue).2
  | hears call k r hcall ho =>
    refine h.due hnot i ?_
    obtain ⟨k', ⟨⟨r', ho'⟩, hx⟩ | hx⟩ := hdue
    · rcases moved_eq_some hx with ⟨-, hx⟩ | ⟨-, he, -⟩
      · exact ⟨k', .inl ⟨⟨r', hfilter ho'⟩, hx⟩⟩
      · cases he
    · rcases moved_eq_some hx with ⟨-, hx⟩ | ⟨rfl, -, -⟩
      · exact ⟨k', .inr hx⟩
      · exact ⟨k, .inl ⟨⟨r, ho⟩, hcall⟩⟩
  | concludes command rest hc hcommand htaken r =>
    refine h.due hnot i ?_
    obtain ⟨k, ⟨⟨r', ho⟩, hx⟩ | hx⟩ := hdue
    · rcases List.mem_append.mp ho with ho | ho
      · exact ⟨k, .inl ⟨⟨r', ho⟩, hx⟩⟩
      · -- The agent does not pass a command to close on.
        obtain ⟨progress, hx'⟩ :=
          h.handed command (hc ▸ List.mem_cons_self) i (Link.call?_of_mem_conclude ho)
        cases hx.symm.trans hx'
        exact absurd rfl (hcommand k)
    · exact ⟨k, .inr hx⟩
  | quits call rest hc hphase =>
    obtain ⟨k, ⟨⟨r, ho⟩, hx⟩ | hx⟩ := hdue
    · rcases List.mem_append.mp ho with ho | ho
      · exact absurd ⟨k, .inl ⟨⟨r, ho⟩, hx⟩⟩ (hserving hphase)
      · cases List.mem_singleton.mp ho
        exact ⟨by simp, List.getLast?_concat, h.task hphase⟩
    · exact absurd ⟨k, .inr hx⟩ (hserving hphase)
  | claims call k hcall =>
    -- Two calls would both have been the last that the agent took.
    obtain ⟨hne, hdue⟩ := hmoved (by split <;> simp) (by split <;> simp) (fun r => id) hdue
    obtain ⟨-, hlast, -⟩ := h.due hnot i hdue
    obtain ⟨-, hlast', -⟩ := h.due hnot call ⟨k, .inr hcall⟩
    cases hlast.symm.trans hlast'
    exact absurd rfl hne

theorem closed_deal (h : b.Kept) (hd : b.Deal b') (i k : CallId) (r : Except Failure Unit)
    (hx : b'.calls[i]? = some ⟨.close k, .returned r⟩) :
    r = .ok () ∧ b'.phase.isDropped = true := by
  have hadded : ∀ {new : Command},
      (b.calls ++ [⟨new, .waiting⟩])[i]? = some ⟨.close k, .returned r⟩ →
      r = .ok () ∧ b.phase.isDropped = true := by
    intro new hx
    rcases getElem?_added hx with hx | ⟨-, he⟩
    · exact h.closed i k r hx
    · cases he
  cases hd with
  | hands | refuses => exact hadded hx
  | fetches call command r' hcall ho hcommand =>
    rcases moved_eq_some hx with ⟨-, hx⟩ | ⟨rfl, -, earlier, hfrom⟩
    · exact h.closed i k r hx
    · cases hcall.symm.trans hfrom
      exact absurd rfl (hcommand k)
  | hears | leaves =>
    rcases moved_eq_some hx with ⟨-, hx⟩ | ⟨-, he, -⟩
    · exact h.closed i k r hx
    · cases he
  | claims call k' hcall =>
    rcases moved_eq_some hx with ⟨-, hx⟩ | ⟨rfl, he, -⟩
    · exact h.closed i k r hx
    · split at he
      · cases he
      · next hgone =>
        cases he
        refine ⟨rfl, Bool.not_eq_false _ ▸ fun hnot => ?_⟩
        exact hgone (h.due hnot call ⟨k', .inr hcall⟩).2.2
  | joins call k' hcall hphase =>
    rcases moved_eq_some hx with ⟨-, hx⟩ | ⟨-, he, -⟩
    · exact h.closed i k r hx
    · cases he
      exact ⟨rfl, hphase ▸ rfl⟩
  | quits call rest hc hphase =>
    have hnot := (h.closed i k r hx).2
    rw [hphase] at hnot
    cases hnot
  | ends hphase | clears hphase =>
    have hnot := (h.closed i k r hx).2
    rw [hphase] at hnot
    cases hnot
  | drops | finishes => exact ⟨(h.closed i k r hx).1, rfl⟩
  | _ => exact h.closed i k r hx

theorem task_deal (h : b.Kept) (hd : b.Deal b') (hphase : b'.phase = .serving) :
    b'.hasTask = true := by
  cases hd with
  | quits | ends | clears | drops | finishes => cases hphase
  | claims call k hx =>
    have hserving : b.phase = .serving := hphase
    exact absurd hserving (h.due (hserving ▸ rfl) call ⟨k, .inr hx⟩).1
  | _ => exact h.task hphase

theorem deal (h : b.Kept) (hd : b.Deal b') : b'.Kept where
  named := h.named_deal hd
  handed := h.handed_deal hd
  known := h.known_deal hd
  outcomes := h.outcomes_deal hd
  returned := h.returned_deal hd
  waiting := h.waiting_deal hd
  closing := h.closing_deal hd
  dropped := h.dropped_deal hd
  due := h.due_deal hd
  closed := h.closed_deal hd
  task := h.task_deal hd

end Kept

end Book

end Roaming.Redis
