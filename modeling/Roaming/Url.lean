import Roaming.Text.Percent

/-!
# URLs

A URL is taken apart into scheme, user, host, port, path, query and fragment. The schemes of the web
must have a host; other schemes may go without one.
-/

set_option autoImplicit false
set_option relaxedAutoImplicit false

namespace Roaming

open Roaming.Text

/-- A URL in its parts; text between slashes is escaped where it must be. -/
structure Url where
  scheme : String
  /-- Whether the part with the host is there, which may be empty. -/
  hasAuthority : Bool := false
  user : String := ""
  password : Option String := none
  host : Option String := none
  port : Option Nat := none
  path : String := ""
  query : Option String := none
  fragment : Option String := none
deriving DecidableEq, Repr

namespace Url

/-- The schemes of the web and their ports. -/
def webPorts : List (String × Option Nat) :=
  [("http", some 80), ("https", some 443), ("ws", some 80), ("wss", some 443), ("ftp", some 21)]

/-- Whether a scheme is one of the web's. -/
def isWeb (scheme : String) : Bool := (webPorts.lookup scheme).isSome

/-- Whether a character is a control. -/
def isControl (c : Char) : Bool := c.toNat < 0x20 || 0x7f ≤ c.toNat

/-- Whether a character is escaped in a fragment. -/
def escapedInFragment (c : Char) : Bool := isControl c || [' ', '"', '<', '>', '`'].contains c

/-- Whether a character is escaped in a query. -/
def escapedInQuery (c : Char) : Bool := isControl c || [' ', '"', '<', '>', '#'].contains c

/-- Whether a character is escaped in a path. -/
def escapedInPath (c : Char) : Bool :=
  escapedInQuery c || ['?', '`', '\x7b', '\x7d', '^'].contains c

/-- Whether a character is escaped in the name of a user. -/
def escapedInUser (c : Char) : Bool :=
  escapedInPath c || ['/', ':', ';', '=', '@', '[', '\\', ']', '|'].contains c

/-- Whether a character cannot stand in a host. -/
def isForbiddenInHost (c : Char) : Bool :=
  ['\x00', '\t', '\n', '\x0d', ' ', '#', '/', ':', '<', '>', '?', '@', '[', '\\', ']', '^',
    '|'].contains c

/-- Whether a character cannot stand in a host of the web. -/
def isForbiddenInDomain (c : Char) : Bool :=
  isForbiddenInHost c || isControl c || c = '%'

/-- The scheme of a text and what stands behind its colon. -/
def splitScheme (s : List Char) : Option (String × List Char) :=
  match s with
  | c :: _ =>
    let name := s.takeWhile fun c => c.isAlphanum || c = '+' || c = '-' || c = '.'
    match s.drop name.length with
    | ':' :: rest =>
      if c.isAlpha then some (String.ofList (name.map Char.toLower), rest) else none
    | _ => none
  | [] => none

/-- The number of a port: digits only, and not too large; without digits there is none. -/
def readPort (digits : List Char) : Option (Option Nat) :=
  if digits = [] then some none
  else ((natOfDigits? digits).filter (· ≤ 65535)).map some

/-- Whether a text between brackets is made like an address with colons. -/
def isColonAddress (s : List Char) : Bool :=
  s.all (fun c => (hexDigit? c).isSome || c = ':' || c = '.') && 2 ≤ s.count ':' && s.count ':' ≤ 8

/-- The number that a label of an address with dots denotes, in the base that its start tells. -/
def readAddressPart (label : List Char) : Option Nat :=
  match label with
  | ['0'] => some 0
  | '0' :: 'x' :: digits => natOfBase? 16 digits
  | '0' :: digits => natOfBase? 8 digits
  | _ => natOfDigits? label

/-- Whether the last label of a name is a number, so that the name must be an address. -/
def endsInNumber (labels : List (List Char)) : Bool :=
  match labels.getLast? with
  | some label => natOfDigits? label ≠ none || readAddressPart label ≠ none
  | none => false

/-- The four bytes of an address with dots: each label but the last one denotes one byte, the last
one those that are left. -/
def readDotAddress (labels : List (List Char)) : Option (List Nat) := do
  let parts ← labels.mapM readAddressPart
  let last ← parts.getLast?
  let front := parts.dropLast
  if 4 ≤ front.length || front.any (255 < ·) then none
  else
    let width := 4 - front.length
    let digit (i : Nat) : Nat := last >>> (8 * (width - 1 - i)) % 256
    if last >>> (8 * width) = 0 then some (front ++ (List.range width).map digit) else none

/-- The host in a text that is not empty. -/
def readHost (web : Bool) (s : List Char) : Option String :=
  match s with
  | '[' :: rest =>
    match rest.reverse with
    | ']' :: inner =>
      if isColonAddress inner.reverse then some (String.ofList (s.map Char.toLower)) else none
    | _ => none
  | _ =>
    if web then
      let name := (lossy (unescaped s)).toLower
      let labels := (name.splitOn ".").map String.toList
      let labels := if labels.getLast? = some [] then labels.dropLast else labels
      if name = "" || name.toList.any isForbiddenInDomain then none
      else if endsInNumber labels then
        (readDotAddress labels).map fun bytes => ".".intercalate (bytes.map toString)
      else some name
    else if s.any isForbiddenInHost then none
    else some (escaped isControl s)

/-- The host and the port in a text: the port stands behind the last colon outside of brackets. -/
def readHostPort (web : Bool) (s : List Char) : Option (Option String × Option Nat) :=
  let back := s.reverse.takeWhile fun c => c ≠ ':' && c ≠ ']'
  let (host, port) : List Char × Option (List Char) :=
    if s.reverse[back.length]? = some ':' then
      (s.take (s.length - back.length - 1), some back.reverse)
    else (s, none)
  if host = [] then
    if web || port.isSome then none else some (none, none)
  else do
    let name ← readHost web host
    let number ← readPort (port.getD [])
    return (some name, number)

/-- A segment with the escapes of dots resolved. -/
def plainDots : List Char → List Char
  | '%' :: '2' :: 'e' :: rest => '.' :: plainDots rest
  | '%' :: '2' :: 'E' :: rest => '.' :: plainDots rest
  | c :: rest => c :: plainDots rest
  | [] => []

/-- The segments of a path without those that only point to where they stand. -/
def resolveDots : List String → List String → List String
  | done, [] => done.reverse
  | done, s :: rest =>
    if plainDots s.toList = ['.'] then resolveDots (if rest = [] then "" :: done else done) rest
    else if plainDots s.toList = ['.', '.'] then
      let done := done.drop 1
      resolveDots (if rest = [] then "" :: done else done) rest
    else resolveDots (s :: done) rest

/-- A path: one that starts with a slash goes by segments; a scheme of the web has no other ones. -/
def readPath (web : Bool) (s : List Char) : String :=
  let s := if web then s.map (fun c => if c = '\\' then '/' else c) else s
  match s with
  | '/' :: rest =>
    let segments := (String.ofList rest).splitOn "/"
    "/" ++ "/".intercalate ((resolveDots [] segments).map fun t => escaped escapedInPath t.toList)
  | _ => if web then "/" else escaped isControl s

/-- What stands before the first character of a kind, and what stands behind it. -/
def cutAt (mark : Char) (s : List Char) : List Char × Option (List Char) :=
  let front := s.takeWhile (· ≠ mark)
  match s.drop front.length with
  | [] => (front, none)
  | _ :: back => (front, some back)

/-- Reads the authority: user, password, host and port. -/
def readAuthority (url : Url) (s : List Char) : Option Url :=
  let web := isWeb url.scheme
  let back := s.reverse.takeWhile (· ≠ '@')
  let hostText := back.reverse
  if back.length = s.length then
    (readHostPort web hostText).map fun p => { url with host := p.1, port := p.2 }
  else
    let (user, password) := cutAt ':' (s.take (s.length - back.length - 1))
    match readHostPort web hostText with
    | some (some host, port) =>
      some { url with
        user := escaped escapedInUser user
        password := (password.filter (· ≠ [])).map (escaped escapedInUser)
        host := some host
        port := port }
    | _ => none

/-- The URL that a text denotes. -/
def parse (text : String) : Option Url := do
  let isMargin (c : Char) : Bool := c.toNat ≤ 0x20
  let trimmed := ((text.toList.dropWhile isMargin).reverse.dropWhile isMargin).reverse
  let (scheme, rest) ← splitScheme (trimmed.filter fun c => !(c = '\t' || c = '\n' || c = '\x0d'))
  let web := isWeb scheme
  let (rest, fragment) := cutAt '#' rest
  let (rest, query) := cutAt '?' rest
  let url : Url :=
    { scheme
      query := query.map (escaped fun c => escapedInQuery c || (web && c = '\x27'))
      fragment := fragment.map (escaped escapedInFragment) }
  let isSlash (c : Char) : Bool := c = '/' || (web && c = '\\')
  let authority? : Option (List Char) :=
    if web then some (rest.dropWhile isSlash)
    else match rest with
      | '/' :: '/' :: rest => some rest
      | _ => none
  match authority? with
  | none => return { url with path := readPath false rest }
  | some rest =>
    let authority := rest.takeWhile fun c => !isSlash c
    let url ← readAuthority { url with hasAuthority := true } authority
    let port := if (webPorts.lookup scheme).getD none = url.port then none else url.port
    return { url with port, path := readPath web (rest.drop authority.length) }

/-- The text of a URL, without the user and the password. -/
def render (url : Url) : String :=
  let port := match url.port with
    | some n => s!":{n}"
    | none => ""
  url.scheme ++ ":" ++ (if url.hasAuthority then "//" else "") ++ url.host.getD "" ++ port ++
    url.path ++ (url.query.map ("?" ++ ·)).getD "" ++ (url.fragment.map ("#" ++ ·)).getD ""

end Url

end Roaming
