import Roaming.Proofs.Pieces

/-!
# Interleavings

A scene is a world with the listeners that are held from outside. It changes act by act: a
task, a POST or an agent is moved by one piece, or something happens from outside. Any
list of acts is a run.
-/

set_option autoImplicit false
set_option relaxedAutoImplicit false

namespace Roaming.Simulation

open Roaming.Text (Bytes)
open Roaming.Redis (CallId)

/-- What is done on a link from outside, apart from listening. -/
inductive LinkUse where
  | publish (key : Key) (payload : Bytes)
  | close
  | fetch (call : CallId)
  | letGo

/-- A link after it was used. -/
def LinkUse.on (u : LinkUse) (l : Redis.Link) : Redis.Link :=
  match u with
  | .publish key payload => l.publish key payload
  | .close => l.close
  | .fetch call => l.fetched call
  | .letGo => { l with isHeld := false }

theorem LinkUse.extends_on (u : LinkUse) (l : Redis.Link) : l.Extends (u.on l) := by
  cases u with
  | publish key payload => exact l.extends_publish key payload
  | close => exact l.extends_close
  | fetch call => exact l.extends_fetched call
  | letGo => exact ⟨.refl _, .same rfl rfl rfl rfl rfl⟩

/-- A world and the listeners that are held from outside, of which released ones are gone. -/
structure Scene where
  world : World
  handles : List (Option Subscription) := []

/-- What can happen to a scene. -/
inductive Act where
  | start (name : String) (job : Job) (cancellation : Cancellation)
  | move (r : Runnable)
  | cancel (id : WorkId)
  | drop (id : WorkId)
  | ring (time : Nat)
  | publish (key : Key) (payload : Bytes)
  | close
  /-- Someone listens on the hub or at a station. -/
  | listen (place : Option Nat) (key : Key)
  | receive (handle : Nat)
  | release (handle : Nat)
  | useLink (i : Nat) (u : LinkUse)
  | bring (sendings : List Sending)
  | cut (i : Nat)

namespace World

/-- Moves something on by one piece. -/
def movePiece (r : Runnable) (w : World) : World :=
  match r with
  | .task id => w.moveTask id
  | .post id => w.moveCourier id
  | .agent i => w.runAgent i

/-- Whether something is in the middle of a turn. -/
def isBusy (r : Runnable) (w : World) : Bool :=
  match r with
  | .task id => (w.task? id).any (·.isBusy)
  | _ => false

/-- Takes what begins a turn out of the queue. -/
def takeUp (r : Runnable) (w : World) : World :=
  if w.isBusy r then w else { w with ready := w.ready.erase r }

end World

namespace Scene

/-- The world in which an act happens. -/
def stage (s : Scene) : Act → World
  | .move r => s.world.takeUp r
  | _ => s.world

/-- Lets something happen. -/
def act (a : Act) (s : Scene) : Scene :=
  match a with
  | .start name job cancellation => { s with world := s.world.start name job cancellation }
  | .move r => { s with world := (s.world.takeUp r).movePiece r }
  | .cancel id => { s with world := s.world.cancel id }
  | .drop id => { s with world := s.world.drop id }
  | .ring time => { s with world := s.world.ring time }
  | .publish key payload => { s with world := s.world.publishOnHub key payload }
  | .close => { s with world := s.world.closeHub }
  | .listen none key =>
    let (hub, log) := s.world.hub.subscribe key
    { world := World.report log { s.world with hub }
      handles := s.handles ++ [some (.hub key s.world.hub.next)] }
  | .listen (some i) key =>
    match s.world.stations[i]? with
    | none => s
    | some station =>
      { world := s.world.onLink i fun l => (l.subscribe key, [])
        handles := s.handles ++ [some (.link i key station.link.listeners.next)] }
  | .receive n =>
    match s.handles[n]? with
    | some (some sub) => { s with world := s.world.takeFrom sub }
    | _ => s
  | .release n =>
    match s.handles[n]? with
    | some (some sub) => { world := s.world.release sub, handles := s.handles.set n none }
    | _ => s
  | .useLink i u => { s with world := s.world.onLink i fun l => (u.on l, []) }
  | .bring sendings => { s with world := s.world.bring sendings }
  | .cut i => { s with world := s.world.cut i }

/-- The scene after acts. -/
def after (acts : List Act) (s : Scene) : Scene := acts.foldl (fun s a => s.act a) s

@[simp] theorem after_nil (s : Scene) : s.after [] = s := rfl

@[simp] theorem after_cons (a : Act) (acts : List Act) (s : Scene) :
    s.after (a :: acts) = (s.act a).after acts := rfl

theorem after_append (acts acts' : List Act) (s : Scene) :
    s.after (acts ++ acts') = (s.after acts).after acts' :=
  List.foldl_append

/-- Whether a scene is one to begin with: nothing is under way, and nobody listens on the hub. -/
structure IsOpening (s : Scene) : Prop where
  tasks : s.world.tasks = []
  couriers : s.world.couriers = []
  ended : s.world.ended = []
  handles : s.handles = []
  inOrder : s.world.hub.InOrder
  registry : s.world.hub.registry = []

/-- A scene with peers in it, before anything has happened. -/
def opening (peers : List Peer) : Scene where
  world := { peers }

theorem opening_isOpening (peers : List Peer) : (opening peers).IsOpening where
  tasks := rfl
  couriers := rfl
  ended := rfl
  handles := rfl
  inOrder := Listeners.InOrder.empty
  registry := rfl

/-- A peer that acknowledges every POST and does nothing else. -/
def silentPeer : Peer where
  name := none
  react _ _ := {}

/-- An exchange with the first peer, whose answer comes over the hub. -/
def firstJob : Job :=
  .exchange ⟨0, some ⟨.hub "x0", .ofMillis 1000, .failFast⟩⟩ "k" [1]

/-- Whether nothing can go on by itself. -/
def IsQuiet (s : Scene) : Prop :=
  s.world.ready = [] ∧ ∀ t ∈ s.world.tasks, t.isBusy = false

/-- What an act puts out on the hub. -/
def publications (a : Act) (s : Scene) : List Publication :=
  match a with
  | .publish key payload => [⟨key, payload⟩]
  | .move (.post id) =>
    match s.world.courier? id with
    | some c => s.world.carries c.post
    | none => []
  | .move (.task id) =>
    match s.world.task? id with
    | some t =>
      if t.isDropped && !t.isBusy then []
      else
        match t.push? with
        | some p => s.world.carries p
        | none => []
    | none => []
  | _ => []

/-- What acts put out on the hub, in order. -/
def published : List Act → Scene → List Publication
  | [], _ => []
  | a :: acts, s => s.publications a ++ published acts (s.act a)

/-- What holds of an opening and is kept by every act holds after every run. -/
theorem after_induction {P : Scene → Prop} {s : Scene} (h : P s)
    (hstep : ∀ s a, P s → P (s.act a)) (acts : List Act) : P (s.after acts) := by
  induction acts generalizing s with
  | nil => exact h
  | cons a acts ih => exact ih (hstep s a h)

end Scene

end Roaming.Simulation
