import Roaming.Proofs.Calls

/-!
# How an agent stops

An agent that leaves its loop first strikes out all listeners, then drops the queue, and then its
task is over; in between, callers go on. A tenure is a system in which these are turns of their own,
with what has become of each call, and with the task of the agent, which one caller of `close` waits
for. Stopping at once, as `Link.stop` does, is the case in which nobody acts in between.
-/

set_option autoImplicit false
set_option relaxedAutoImplicit false

namespace Roaming.Redis

open Roaming.Text (Bytes)

/-! ### The parts of a stop -/

namespace Link

/-- Strikes out all listeners. -/
def clear (l : Link) : Link := { l with listeners := l.listeners.disconnect }

/-- Drops the queue, and with it the commands in it and those that wait for room. -/
def discard (l : Link) : Link :=
  { l with
    agent := .stopped
    queue := []
    blocked := []
    outcomes := l.outcomes ++
      l.queue.flatMap (Command.abandoned "actor responder channel read failed: channel closed") ++
      l.blocked.flatMap (Command.abandoned "actor command channel closed: channel closed") }

theorem discard_clear (l : Link) : l.clear.discard = l.stop.1 := rfl

end Link

/-- What only the agent does. -/
def Act.isAgents : Act → Bool
  | .draw | .send | .conclude | .deliver | .streamEnd | .desert => true
  | _ => false

/-- How far a call has come. -/
inductive Progress where
  | waiting
  /-- A call to close has its outcome, and is yet to look for the agent's task. -/
  | answered
  /-- A call to close waits for the agent's task. -/
  | joining
  | returned (r : Except Failure Unit)
  | givenUp

/-- Whether somebody still waits for a call. -/
def Progress.isOpen : Progress → Bool
  | .returned _ => false
  | .givenUp => false
  | _ => true

/-- A call with the command that it has handed in. -/
structure Call where
  command : Command
  progress : Progress

/-- Calls, each at the place of its number, after one of them has come further. -/
def moved (call : CallId) (progress : Progress) (calls : List Call) : List Call :=
  calls.modify call fun x => { x with progress }

/-- Calls after one of them may have come further. -/
def settle : Option (CallId × Progress) → List Call → List Call
  | some (call, progress), calls => moved call progress calls
  | none, calls => calls

namespace System

/-- The system that the agent leaves behind, if an act makes it leave its loop: with a command to
close, with the end of the broker's messages, or with the last of those who could call. -/
def departure (a : Act) (s : System) : Option System :=
  match a, s.link.agent with
  | .draw, .idle =>
    match s.link.queue with
    | .close call :: rest =>
      some { s with
        link := { s.link with queue := rest, outcomes := s.link.outcomes ++ [(call, .ok ())] }
        service := .unsent }
    | _ => none
  | .streamEnd, .idle => if s.stream.isEmpty then some s else none
  | .desert, .idle => if s.subscribers.isEmpty && s.link.isDeserted then some s else none
  | _, _ => none

/-- The command that the agent takes. -/
def taken (a : Act) (s : System) : List Command :=
  match a, s.link.agent, s.link.queue with
  | .draw, .idle, command :: _ => [command]
  | _, _, _ => []

/-- The command that an act hands in. -/
def handed (a : Act) (s : System) : List Command :=
  match a with
  | .request id =>
    match s.subscriber? id with
    | some ⟨_, channel, .registered⟩ => [.subscribe s.link.nextCall channel]
    | _ => []
  | .publish channel payload =>
    if s.link.isHeld then [.publish s.link.nextCall channel payload] else []
  | .close => if s.link.isHeld then [.close s.link.nextCall] else []
  | _ => []

/-- The call that a subscriber is done with, and how. -/
def settled (a : Act) (s : System) : Option (CallId × Progress) :=
  match a with
  | .resume id =>
    match s.subscriber? id with
    | some ⟨_, _, .waiting call⟩ => (s.link.outcome? call).map fun r => (call, .returned r)
    | _ => none
  | .giveUp id =>
    match s.subscriber? id with
    | some ⟨_, _, .waiting call⟩ => some (call, .givenUp)
    | _ => none
  | _ => none

theorem departure_eq_some {a : Act} {s t : System} (h : s.departure a = some t) :
    s.link.agent = .idle ∧
      ((∃ call rest, a = .draw ∧ s.link.queue = .close call :: rest ∧
        t = { s with
          link := { s.link with queue := rest, outcomes := s.link.outcomes ++ [(call, .ok ())] }
          service := .unsent }) ∨
      (a = .streamEnd ∧ s.stream = [] ∨
        a = .desert ∧ s.subscribers = [] ∧ s.link.isDeserted = true) ∧ t = s) := by
  unfold departure at h
  split at h
  · next hidle =>
    refine ⟨hidle, .inl ?_⟩
    split at h
    · next call rest hq => exact ⟨call, rest, rfl, hq, (Option.some.inj h).symm⟩
    · cases h
  · next hidle =>
    refine ⟨hidle, .inr ?_⟩
    split at h
    · next hstream => exact ⟨.inl ⟨rfl, List.isEmpty_iff.mp hstream⟩, (Option.some.inj h).symm⟩
    · cases h
  · next hidle =>
    refine ⟨hidle, .inr ?_⟩
    split at h
    · next hleft =>
      obtain ⟨hnobody, hdeserted⟩ := Bool.and_eq_true_iff.mp hleft
      exact ⟨.inr ⟨rfl, List.isEmpty_iff.mp hnobody, hdeserted⟩, (Option.some.inj h).symm⟩
    · cases h
  · cases h

/-- The agent of a system stops at once when it leaves. -/
theorem act_of_departure {a : Act} {s t : System} (h : s.departure a = some t) :
    s.act a = { t with link := t.link.clear.discard } := by
  obtain ⟨hidle, ⟨call, rest, rfl, hq, rfl⟩ | ⟨⟨rfl, hstream⟩ | ⟨rfl, hnobody, hdeserted⟩, rfl⟩⟩ :=
    departure_eq_some h
  · simp only [act, if_pos hidle, Link.draw_close hidle hq, Link.discard_clear]
  · simp only [act, hidle, hstream, Link.discard_clear]
    simp [Link.streamEnd, Link.isStopped, hidle]
  · simp only [act, if_pos hnobody, Link.desert, if_pos hdeserted, Link.discard_clear]

end System

/-! ### Tenures -/

/-- How far the agent has come. -/
inductive Phase where
  | serving
  /-- The agent has left its loop. -/
  | leaving
  /-- The listeners are struck out. -/
  | cleared
  /-- The queue is dropped. -/
  | dropped
  /-- The agent's task is over. -/
  | finished
deriving DecidableEq, Repr

namespace Phase

/-- Whether the listeners are struck out. -/
def isCleared : Phase → Bool
  | .serving | .leaving => false
  | _ => true

/-- Whether the queue is dropped. -/
def isDropped : Phase → Bool
  | .dropped | .finished => true
  | _ => false

end Phase

/-- A system, how far its agent has come, its calls and the commands that the agent has taken, and
whether the agent's task is there for somebody to wait for. -/
structure Tenure where
  system : System := {}
  phase : Phase := .serving
  calls : List Call := []
  taken : List Command := []
  hasTask : Bool := true

/-- What can happen to a tenure. -/
inductive Turn where
  | act (a : Act)
  /-- A command that waits for room is let into the queue. -/
  | letIn
  | clear
  | drop
  | finish
  /-- A call to publish or to close takes its outcome. -/
  | fetch (call : CallId)
  /-- A call to close looks for the agent's task, which only the first one finds. -/
  | claim (call : CallId)
  | join (call : CallId)
  /-- A call to publish or to close is given up. -/
  | leave (call : CallId)

namespace Tenure

/-- A tenure with another link. -/
def withLink (link : Link) (s : Tenure) : Tenure := { s with system := { s.system with link } }

/-- A tenure in which a call has come further. -/
def progress (call : CallId) (progress : Progress) (s : Tenure) : Tenure :=
  { s with calls := moved call progress s.calls }

/-- Lets the agent act, which may make it leave. -/
def serve (a : Act) (s : Tenure) : Tenure :=
  match s.system.departure a with
  | some system => { s with system, taken := s.taken ++ s.system.taken a, phase := .leaving }
  | none => { s with system := s.system.act a, taken := s.taken ++ s.system.taken a }

/-- Lets anybody else act. -/
def meanwhile (a : Act) (s : Tenure) : Tenure :=
  { s with
    system := s.system.act a
    calls := settle (s.system.settled a) s.calls ++
      (s.system.handed a).map fun command => ⟨command, .waiting⟩ }

/-- Lets something happen; what is not possible does nothing. -/
def turn (e : Turn) (s : Tenure) : Tenure :=
  match e with
  | .act a =>
    if a.isAgents then if s.phase = .serving then s.serve a else s
    else s.meanwhile a
  | .letIn => s.withLink s.system.link.refill
  | .clear =>
    if s.phase = .leaving then { s.withLink s.system.link.clear with phase := .cleared } else s
  | .drop =>
    if s.phase = .cleared then { s.withLink s.system.link.discard with phase := .dropped } else s
  | .finish => if s.phase = .dropped then { s with phase := .finished } else s
  | .fetch call =>
    match s.calls[call]?, s.system.link.outcome? call with
    | some ⟨.publish _ _ _, .waiting⟩, some r =>
      (s.withLink (s.system.link.fetched call)).progress call (.returned r)
    | some ⟨.close _, .waiting⟩, some _ =>
      (s.withLink (s.system.link.fetched call)).progress call .answered
    | _, _ => s
  | .claim call =>
    match s.calls[call]? with
    | some ⟨.close _, .answered⟩ =>
      { s.progress call (if s.hasTask then .joining else .returned (.ok ())) with hasTask := false }
    | _ => s
  | .join call =>
    match s.calls[call]?, s.phase with
    | some ⟨.close _, .joining⟩, .finished => s.progress call (.returned (.ok ()))
    | _, _ => s
  | .leave call =>
    match s.calls[call]? with
    | some ⟨.subscribe _ _, _⟩ => s
    | some ⟨_, progress⟩ =>
      if progress.isOpen then (s.withLink (s.system.link.withdraw call)).progress call .givenUp
      else s
    | none => s

/-- The tenure after turns. -/
def run (turns : List Turn) (s : Tenure) : Tenure := turns.foldl (fun s e => s.turn e) s

@[simp] theorem run_nil (s : Tenure) : s.run [] = s := rfl

@[simp] theorem run_cons (e : Turn) (turns : List Turn) (s : Tenure) :
    s.run (e :: turns) = (s.turn e).run turns := rfl

theorem run_append (turns turns' : List Turn) (s : Tenure) :
    s.run (turns ++ turns') = (s.run turns).run turns' :=
  List.foldl_append

/-- The tenure of an agent that has just started. -/
def opening : Tenure := {}

/-- If nobody acts in between, the agent stops as that of a system does. -/
theorem system_run_stop {a : Act} {s : Tenure} {t : System} (hserving : s.phase = .serving)
    (h : s.system.departure a = some t) :
    (s.run [.act a, .clear, .drop]).system = s.system.act a := by
  have hagent : a.isAgents = true := by
    obtain ⟨-, ⟨call, rest, rfl, -⟩ | ⟨⟨rfl, -⟩ | ⟨rfl, -⟩, -⟩⟩ :=
      System.departure_eq_some h <;> rfl
  rw [System.act_of_departure h]
  simp only [run_cons, run_nil, turn, if_pos hagent, if_pos hserving, serve, h, withLink, if_true]

/-- What a turn does, with what must be the case for it. -/
inductive Change (s : Tenure) : Turn → Tenure → Prop where
  | still (e : Turn) (hact : ∀ a, e = .act a → a.isAgents = true) : Change s e s
  | departs (a : Act) (t : System) (ha : a.isAgents = true) (hserving : s.phase = .serving)
      (hleft : s.system.departure a = some t) :
      Change s (.act a)
        { s with system := t, taken := s.taken ++ s.system.taken a, phase := .leaving }
  | serves (a : Act) (ha : a.isAgents = true) (hserving : s.phase = .serving)
      (hstays : s.system.departure a = none) :
      Change s (.act a)
        { s with system := s.system.act a, taken := s.taken ++ s.system.taken a }
  | others (a : Act) (ha : a.isAgents = false) : Change s (.act a) (s.meanwhile a)
  | letsIn : Change s .letIn (s.withLink s.system.link.refill)
  | clears (hphase : s.phase = .leaving) :
      Change s .clear { s.withLink s.system.link.clear with phase := .cleared }
  | drops (hphase : s.phase = .cleared) :
      Change s .drop { s.withLink s.system.link.discard with phase := .dropped }
  | finishes (hphase : s.phase = .dropped) : Change s .finish { s with phase := .finished }
  | fetches (call k : CallId) (channel : Key) (payload : Bytes) (r : Except Failure Unit)
      (hx : s.calls[call]? = some ⟨.publish k channel payload, .waiting⟩)
      (ho : s.system.link.outcome? call = some r) :
      Change s (.fetch call)
        ((s.withLink (s.system.link.fetched call)).progress call (.returned r))
  | hears (call k : CallId) (r : Except Failure Unit)
      (hx : s.calls[call]? = some ⟨.close k, .waiting⟩)
      (ho : s.system.link.outcome? call = some r) :
      Change s (.fetch call) ((s.withLink (s.system.link.fetched call)).progress call .answered)
  | claims (call k : CallId) (hx : s.calls[call]? = some ⟨.close k, .answered⟩) :
      Change s (.claim call)
        { s.progress call (if s.hasTask then .joining else .returned (.ok ())) with
          hasTask := false }
  | joins (call k : CallId) (hx : s.calls[call]? = some ⟨.close k, .joining⟩)
      (hphase : s.phase = .finished) :
      Change s (.join call) (s.progress call (.returned (.ok ())))
  | leaves (call : CallId) (command : Command) (progress : Progress)
      (hx : s.calls[call]? = some ⟨command, progress⟩)
      (hcommand : ∀ k channel, command ≠ .subscribe k channel) :
      Change s (.leave call)
        ((s.withLink (s.system.link.withdraw call)).progress call .givenUp)

theorem turn_change (s : Tenure) (e : Turn) : s.Change e (s.turn e) := by
  cases e with
  | act a =>
    simp only [turn]
    split
    · next ha =>
      split
      · next hserving =>
        unfold serve
        split
        · next t hleft => exact .departs a t ha hserving hleft
        · next hstays => exact .serves a ha hserving hstays
      · refine .still _ fun b he => ?_
        cases he
        exact ha
    · next ha => exact .others a (Bool.not_eq_true _ ▸ ha)
  | letIn => exact .letsIn
  | clear =>
    simp only [turn]
    split
    · next hphase => exact .clears hphase
    · exact .still _ (by simp)
  | drop =>
    simp only [turn]
    split
    · next hphase => exact .drops hphase
    · exact .still _ (by simp)
  | finish =>
    simp only [turn]
    split
    · next hphase => exact .finishes hphase
    · exact .still _ (by simp)
  | fetch call =>
    simp only [turn]
    split
    · next hx ho => exact .fetches call _ _ _ _ hx ho
    · next hx ho => exact .hears call _ _ hx ho
    · exact .still _ (by simp)
  | claim call =>
    simp only [turn]
    split
    · next hx => exact .claims call _ hx
    · exact .still _ (by simp)
  | join call =>
    simp only [turn]
    split
    · next hx hphase => exact .joins call _ hx hphase
    · exact .still _ (by simp)
  | leave call =>
    simp only [turn]
    split
    · exact .still _ (by simp)
    · next hother hx =>
      split
      · exact .leaves call _ _ hx hother
      · exact .still _ (by simp)
    · exact .still _ (by simp)

end Tenure

end Roaming.Redis
