import Roaming.Failure
import Roaming.Url

/-!
# Targets of a Redis link

The URI of a broker tells where it listens, over the network or on a socket of the file system, and
who logs in to which database.
-/

set_option autoImplicit false
set_option relaxedAutoImplicit false

namespace Roaming.Redis

open Roaming.Text

/-- Where a broker listens. -/
inductive Location where
  | network (host : String) (port : Nat)
  | socket (path : String)
deriving DecidableEq, Repr

/-- The protocols that a broker speaks. -/
inductive Protocol where
  | second
  | third
deriving DecidableEq, Repr

/-- What a URI tells about a broker. -/
structure Target where
  location : Location
  database : Int := 0
  user : Option String := none
  password : Option String := none
  protocol : Protocol := .second
deriving DecidableEq, Repr

/-- Why a URI denotes no target. -/
inductive UriFault where
  | noUrl
  | noHost
  | noTls
  | noPath
  | database
  | user
  | password
  | protocol
deriving DecidableEq, Repr

/-- The wording of a fault. -/
def UriFault.message : UriFault → String
  | .noUrl => "Redis URL did not parse - InvalidClientConfig"
  | .noHost => "Missing hostname - InvalidClientConfig"
  | .noTls => "can't connect with TLS, the feature is not enabled - InvalidClientConfig"
  | .noPath => "Missing path - InvalidClientConfig"
  | .database => "Invalid database number - InvalidClientConfig"
  | .user => "Username is not valid UTF-8 string - InvalidClientConfig"
  | .password => "Password is not valid UTF-8 string - InvalidClientConfig"
  | .protocol =>
    "Invalid protocol version, expected 2/resp2 or 3/resp3 - InvalidClientConfig"

namespace Target

/-- The port of a broker whose URI names none. -/
def defaultPort : Nat := 6379

/-- The database that a text denotes, or the fault. -/
def readDatabase (text : String) : Except UriFault Int :=
  match int64? text with
  | some n => .ok n
  | none => .error .database

/-- The last value of a name in a query. -/
def queryValue (pairs : List (String × String)) (name : String) : Option String :=
  pairs.reverse.lookup name

/-- The protocol that a query asks for. -/
def readProtocol (pairs : List (String × String)) : Except UriFault Protocol :=
  match queryValue pairs "protocol" with
  | none => .ok .second
  | some p =>
    if p = "2" || p = "resp2" then .ok .second
    else if p = "3" || p = "resp3" then .ok .third
    else .error .protocol

/-- A text with its escapes resolved, if it is well-formed. -/
def plain (fault : UriFault) (text : String) : Except UriFault String :=
  match ofUtf8? (unescaped text.toList) with
  | some s => .ok s
  | none => .error fault

/-- A path without the slashes at its ends. -/
def trimSlashes (path : String) : String :=
  let isSlash (c : Char) : Bool := c = '/'
  String.ofList ((path.toList.dropWhile isSlash).reverse.dropWhile isSlash).reverse

/-- The target of a URL that leads over the network. -/
def ofNetwork (secure : Bool) (url : Url) : Except UriFault Target := do
  let some host := url.host | throw .noHost
  if secure then throw .noTls
  let database ← match trimSlashes url.path with
    | "" => pure 0
    | text => readDatabase text
  let user ← if url.user = "" then pure none else some <$> plain .user url.user
  let password ← url.password.mapM (plain .password)
  let protocol ← readProtocol (queryPairs (url.query.getD ""))
  return {
    location := .network host (url.port.getD defaultPort)
    database, user, password, protocol }

/-- The target of a URL that leads to a socket of the file system. -/
def ofSocket (url : Url) : Except UriFault Target := do
  if !url.path.startsWith "/" || !(url.host = none || url.host = some "localhost") then
    throw .noPath
  let pairs := queryPairs (url.query.getD "")
  let database ← match queryValue pairs "db" with
    | some text => readDatabase text
    | none => pure 0
  let protocol ← readProtocol pairs
  return {
    location := .socket (lossy (unescaped url.path.toList))
    database
    user := queryValue pairs "user"
    password := queryValue pairs "pass"
    protocol }

/-- The target that a URI denotes. -/
def ofUri (uri : String) : Except UriFault Target := do
  let some url := Url.parse uri | throw .noUrl
  match url.scheme with
  | "redis" | "valkey" => ofNetwork false url
  | "rediss" | "valkeys" => ofNetwork true url
  | "redis+unix" | "valkey+unix" | "unix" => ofSocket url
  | _ => throw .noUrl

/-- The commands that open a connection: logging in, and choosing the database. -/
def greeting (t : Target) : List (List String) :=
  let login := match t.password with
    | some password => t.user.toList ++ [password]
    | none => []
  let hello := match t.protocol with
    | .third =>
      let auth := match t.password with
        | some password => ["AUTH", t.user.getD "default", password]
        | none => []
      [["HELLO", "3"] ++ auth]
    | .second => if login = [] then [] else ["AUTH" :: login]
  hello ++ if t.database = 0 then [] else [["SELECT", toString t.database]]

end Target

/-- The failure to make a link from a URI. -/
def openFailure (uri : String) (fault : UriFault) : Failure :=
  .transport s!"redis: failed to open client for URI {uri}: {fault.message}"

/-- The two connections of a link. -/
inductive Line where
  | publish
  | listen
deriving DecidableEq, Repr

/-- The name of a connection in messages. -/
def Line.name : Line → String
  | .publish => "publish"
  | .listen => "pubsub"

/-- The failure to make one of a link's connections. -/
def connectFailure (uri : String) (line : Line) (reason : String) : Failure :=
  .transport s!"redis: failed to connect {line.name} connection to {uri}: {reason}"

end Roaming.Redis
