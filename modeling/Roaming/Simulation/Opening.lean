import Roaming.Medium.Address
import Roaming.Simulation.Task

/-!
# Opening transports

A transport is opened from a URI: the hub of the process, or a link to a broker. A link opens a
connection for publishing and one for listening, logs in on each and chooses the database.
-/

set_option autoImplicit false
set_option relaxedAutoImplicit false

namespace Roaming.Simulation

open Roaming.Text (Bytes utf8)
open Roaming.Redis

/-- What is found where a URI leads: the broker, or nothing, for a reason. -/
abbrev Site := Location → Except String Unit

/-- Where no network is up and no broker listens. -/
def Site.empty : Site
  | .network _ _ => .error "Network is unreachable (os error 101)"
  | .socket _ => .error "No such file or directory (os error 2)"

/-- Where a broker has a socket of the file system; it may have stopped listening. -/
def Site.withSocket (path : String) (listens : Bool) : Site
  | .network host port => Site.empty (.network host port)
  | .socket p =>
    if p = path then
      if listens then .ok () else .error "Connection refused (os error 111)"
    else Site.empty (.socket p)

/-- A transport that was to be opened. -/
inductive Transport where
  /-- It was not opened, or has been forgotten. -/
  | none
  | hub
  | station (index : Nat)
deriving DecidableEq, Repr

/-- How a broker's replies to the first commands of a connection are taken. -/
inductive Greeting where
  | welcome
  /-- The broker knows no users: the password alone may do. -/
  | withoutUser
  | refused (reason : String)
deriving DecidableEq, Repr

/-- Whether a text holds another one. -/
def contains (part : List Char) : List Char → Bool
  | [] => part.isEmpty
  | c :: rest => part.isPrefixOf (c :: rest) || contains part rest

/-- How the reply to logging in with a password is taken. -/
def Greeting.ofLogin : Resp → Greeting
  | .okay => .welcome
  | .error ⟨_, some detail⟩ =>
    if contains "wrong number of arguments for 'auth' command".toList detail.toList then
      .withoutUser
    else .refused "Password authentication failed - AuthenticationFailed"
  | .error ⟨_, .none⟩ => .refused "Password authentication failed - AuthenticationFailed"
  | _ => .refused ("Redis server refused to authenticate, returns Ok() != Value::Okay - " ++
      "Server(ResponseError)")

/-- How the reply to choosing a database is taken. -/
def Greeting.ofSelection : Resp → Greeting
  | .error ⟨_, some detail⟩ =>
    .refused ("Redis server refused to switch database - Server(ResponseError): " ++ detail)
  | .error ⟨_, .none⟩ => .refused "Redis server refused to switch database - Server(ResponseError)"
  | _ => .welcome

/-- How the reply to asking for the newer protocol is taken. -/
def Greeting.ofHello : Resp → Greeting
  | .error e => .refused e.message
  | _ => .welcome

/-- How a reply to the command with the given name is taken. -/
def Greeting.ofReply (name : String) (v : Resp) : Greeting :=
  if name = "AUTH" then .ofLogin v
  else if name = "SELECT" then .ofSelection v
  else .ofHello v

/-- The first of several greetings that is no welcome. -/
def Greeting.first (gs : List Greeting) : Greeting :=
  (gs.find? (· ≠ .welcome)).getD .welcome

namespace World

/-- Sends one of the first commands of a connection; the broker's reply is taken. -/
def greetWith (line : Nat) (command : List String) (w : World) : Greeting × World :=
  let arguments := command.map utf8
  let (broker, reply, _) := w.broker.execute line arguments
  let w := record (.command arguments line) { w with broker }
  match arrival reply with
  | .value v _ => (.ofReply (command.headD "") v, w)
  | _ => (.welcome, w)

/-- Sends the first commands of a connection, all at once. -/
def greetAll (line : Nat) : List (List String) → World → List Greeting × World
  | [], w => ([], w)
  | command :: rest, w =>
    let (greeting, w) := w.greetWith line command
    let (greetings, w) := greetAll line rest w
    (greeting :: greetings, w)

/-- Opens a connection to the broker: its number, or why it was refused. -/
def connect (t : Target) (w : World) : Except String Nat × World :=
  let line := w.broker.connections.length
  let (greetings, w) := greetAll line t.greeting { w with broker := w.broker.accept }
  let refuse (reason : String) (w : World) : Except String Nat × World :=
    (.error reason, { w with broker := w.broker.hangUp line })
  match Greeting.first greetings with
  | .welcome => (.ok line, w)
  | .refused reason => refuse reason w
  | .withoutUser =>
    let (greetings, w) := w.greetAll line { t with user := none }.greeting
    match Greeting.first (greetings.filter (· ≠ .withoutUser)) with
    | .refused reason => refuse reason w
    | _ => (.ok line, w)

/-- The end of an attempt to open a link. -/
def failOpening (f : Failure) (w : World) : Except Failure Transport × World :=
  (.error f, w.report [.error (match f with
    | .transport m => m
    | f => f.message)])

/-- Opens a link to the broker that a URI denotes. -/
def openLink (site : Site) (uri : String) (w : World) : Except Failure Transport × World :=
  match Target.ofUri uri with
  | .error fault => w.failOpening (openFailure uri fault)
  | .ok target =>
    match site target.location with
    | .error reason => w.failOpening (connectFailure uri .publish reason)
    | .ok () =>
      match w.connect target with
      | (.error reason, w) => w.failOpening (connectFailure uri .publish reason)
      | (.ok publishLine, w) =>
        match w.connect target with
        | (.error reason, w) =>
          { w with broker := w.broker.hangUp publishLine }.failOpening
            (connectFailure uri .listen reason)
        | (.ok listenLine, w) =>
          (.ok (.station w.stations.length),
            report [.info s!"redis: connected to broker at {uri}"]
              { w with stations := w.stations ++ [{ publishLine, listenLine }] })

/-- The key under which the traffic of an open transport is checked to have gone through. -/
def barrierKey (index : Nat) : Key := s!"barrier:{index}"

/-- Opens the transport that a URI denotes, as the one with the given position. -/
def openTransport (site : Site) (isDirect : Bool) (index : Nat) (uri : String) (w : World) :
    Except Failure Transport × World :=
  if isDirect then w.openLink site uri
  else
    let w := w.report [Address.openingLine uri]
    match Address.ofUri uri with
    | .error f => (.error f, w)
    | .ok (.redis uri) => w.openLink site uri
    | .ok .processHub =>
      let (hub, log) := w.hub.subscribe (barrierKey index)
      (.ok .hub, report log { w with hub })

end World

end Roaming.Simulation
