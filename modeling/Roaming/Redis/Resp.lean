import Roaming.Text.Digits
import Roaming.Text.Quoted
import Roaming.Text.Utf8

/-!
# Values that a Redis broker sends

The broker sends values, one behind the other. A value is read from the bytes that have arrived;
there may be too few of them yet. A value that is not what was asked for is refused with a text that
shows it.
-/

set_option autoImplicit false
set_option relaxedAutoImplicit false

namespace Roaming.Redis

open Roaming.Text

/-- An error of the broker: its code and what it says. -/
structure BrokerError where
  code : String
  detail : Option String
deriving DecidableEq, Repr

/-- A value that a broker sends. -/
inductive Resp where
  | nil
  | int (n : Int)
  | bulk (bytes : Bytes)
  | list (items : List Resp)
  | okay
  | simple (s : String)
  | bool (b : Bool)
  | error (e : BrokerError)

/-! ### Texts -/

/-- The kinds of errors that have names of their own, by their codes. -/
def errorKinds : List (String × String) :=
  [("ERR", "ResponseError"), ("EXECABORT", "ExecAbort"), ("LOADING", "BusyLoading"),
    ("NOSCRIPT", "NoScript"), ("MOVED", "Moved"), ("ASK", "Ask"), ("TRYAGAIN", "TryAgain"),
    ("CLUSTERDOWN", "ClusterDown"), ("CROSSSLOT", "CrossSlot"), ("MASTERDOWN", "MasterDown"),
    ("READONLY", "ReadOnly"), ("NOTBUSY", "NotBusy"), ("NOSUB", "NoSub"), ("NOPERM", "NoPerm")]

/-- The text of an error: the name of its kind, or its code in quotes, and what the broker says. -/
def BrokerError.message (e : BrokerError) : String :=
  let kind := match errorKinds.lookup e.code with
    | some name => name
    | none => quoted e.code
  match e.detail with
  | some detail => kind ++ ": " ++ detail
  | none => kind

/-- A list of texts in brackets. -/
def bracketed (texts : List String) : String := "[" ++ ", ".intercalate texts ++ "]"

mutual
/-- How a value is shown in a message. -/
def Resp.describe : Resp → String
  | .nil => "nil"
  | .int n => s!"int({n})"
  | .bulk bytes =>
    match ofUtf8? bytes with
    | some s => "bulk-string('" ++ quoted s ++ "')"
    | none => "binary-data(" ++ bracketed (bytes.map fun b => toString b.toNat) ++ ")"
  | .list items => "array(" ++ bracketed (Resp.describeAll items) ++ ")"
  | .okay => "ok"
  | .simple s => "simple-string(" ++ quoted s ++ ")"
  | .bool b => s!"boolean({b})"
  | .error e =>
    match e.detail with
    | some detail => "Server error: `" ++ e.code ++ ": " ++ detail ++ "`"
    | none => "Server error: `" ++ e.code ++ "`"

/-- How the values of a list are shown. -/
def Resp.describeAll : List Resp → List String
  | [] => []
  | v :: vs => v.describe :: Resp.describeAll vs
end

/-- The text that refuses a value. -/
def Resp.refusal (v : Resp) (reason : String) : String :=
  "Incompatible type - " ++ quoted reason ++ " (value was " ++ v.describe ++ ")"

/-! ### What a value is taken for -/

/-- A value as a number between bounds, which only texts must keep. -/
def Resp.number (low high : Int) (v : Resp) : Except String Int :=
  match v with
  | .int n => .ok n
  | .simple s => (boundedInt? low high s).elim (.error (v.refusal "Could not convert from string."))
      .ok
  | .bulk bytes =>
    match ofUtf8? bytes with
    | none => .error "Invalid UTF-8"
    | some s => (boundedInt? low high s).elim
        (.error (v.refusal "Could not convert from string.")) .ok
  | _ => .error (v.refusal "Response type not convertible to numeric.")

/-- A reply that counts something: a 64-bit number. -/
def Resp.count (v : Resp) : Except String Int :=
  match v with
  | .error e => .error e.message
  | v => v.number minInt64 maxInt64

/-- A reply that only confirms: anything but an error. -/
def Resp.confirmation (v : Resp) : Except String Int :=
  match v with
  | .error e => .error e.message
  | _ => .ok 0

/-- A value as the bytes of a message. -/
def Resp.bytes (v : Resp) : Except String Bytes :=
  match v with
  | .bulk bytes => .ok bytes
  | .nil => .ok []
  | .list items => items.mapM fun item => do
      let n ← item.number 0 255
      return (n % 256).toNat.toUInt8
  | _ => .error (v.refusal "Response type not vector compatible.")

/-- A value as a text. -/
def Resp.text? : Resp → Option String
  | .bulk bytes => ofUtf8? bytes
  | .simple s => some s
  | .okay => some "OK"
  | .int n => some (toString n)
  | _ => none

/-! ### Reading -/

/-- How far a value could be read. -/
inductive Arrival where
  | value (v : Resp) (rest : Bytes)
  /-- There are bytes to come. -/
  | incomplete
  /-- No value starts like this. -/
  | broken

/-- The text of a line and the bytes behind its end. -/
def readLine : Bytes → Option (Bytes × Bytes)
  | 13 :: 10 :: rest => some ([], rest)
  | b :: rest => (readLine rest).map fun p => (b :: p.1, p.2)
  | [] => none

/-- The value of a line that is a text. -/
def simpleOf (s : String) : Resp := if s = "OK" then .okay else .simple s

/-- The error that a line tells: its first word is the code. -/
def errorOf (s : String) : BrokerError :=
  let code := s.toList.takeWhile (· ≠ ' ')
  match s.toList.dropWhile (· ≠ ' ') with
  | [] => ⟨String.ofList code, none⟩
  | _ :: detail => ⟨String.ofList code, some (String.ofList detail)⟩

mutual
/-- Reads one value; `fuel` bounds how deep it may be and how many items it may have. -/
def readResp : Nat → Bytes → Arrival
  | 0, _ => .incomplete
  | _, [] => .incomplete
  | fuel + 1, mark :: rest =>
    match readLine rest with
    | none => .incomplete
    | some (line, rest) =>
      match ofUtf8? line with
      | none => .broken
      | some s =>
        if mark = 43 then .value (simpleOf s) rest
        else if mark = 45 then .value (.error (errorOf s)) rest
        else if mark = 95 then .value .nil rest
        else if mark = 35 then
          if s = "t" then .value (.bool true) rest
          else if s = "f" then .value (.bool false) rest
          else .broken
        else
          match int64? s.trimAscii.toString with
          | none => .broken
          | some n =>
            if mark = 58 then .value (.int n) rest
            else if mark = 36 then
              if n < 0 then .value .nil rest
              else if rest.length < n.toNat + 2 then .incomplete
              else .value (.bulk (rest.take n.toNat)) (rest.drop (n.toNat + 2))
            else if mark = 42 ∨ mark = 62 then
              if n < 0 then .value .nil rest else readItems fuel n.toNat [] rest
            else .broken

/-- Reads the items of a list. -/
def readItems : Nat → Nat → List Resp → Bytes → Arrival
  | _, 0, items, rest => .value (.list items.reverse) rest
  | 0, _, _, _ => .incomplete
  | fuel + 1, n + 1, items, bytes =>
    match readResp fuel bytes with
    | .value v rest => readItems fuel n (v :: items) rest
    | .incomplete => .incomplete
    | .broken => .broken
end

/-- Reads the first value of the bytes that have arrived. -/
def arrival (bytes : Bytes) : Arrival :=
  readResp (2 * bytes.length + 1) bytes

/-! ### Messages -/

/-- A message of a channel. -/
structure Message where
  channel : String
  payload : Resp

/-- The message that a value is, if it is one. -/
def Resp.message? : Resp → Option Message
  | .list (.bulk kind :: items) =>
    if kind = utf8 "message" then
      match items with
      | channel :: payload :: _ => some ⟨channel.text?.getD "?", payload⟩
      | _ => none
    else if kind = utf8 "pmessage" then
      match items with
      | _ :: channel :: payload :: _ => some ⟨channel.text?.getD "?", payload⟩
      | _ => none
    else none
  | _ => none

end Roaming.Redis
