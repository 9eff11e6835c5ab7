/-!
# JSON values

`Value` holds a document as it was read: members stand in text order and may repeat. `Value.sorted`
is the form in which opaque values are kept and written: members in ascending order of their names,
the last of equal names winning. `Value.same` compares two values with numbers compared as numbers.
-/

set_option autoImplicit false
set_option relaxedAutoImplicit false

namespace Roaming.Json

/-- An integer that a JSON document can carry as such: from -2^63 to 2^64 - 1. -/
structure Whole where
  val : Int
  low : -9223372036854775808 ≤ val := by omega
  high : val ≤ 18446744073709551615 := by omega
deriving DecidableEq

/-- The whole number with value `n`, if it is in range. -/
def Whole.ofInt? (n : Int) : Option Whole :=
  if h : -9223372036854775808 ≤ n ∧ n ≤ 18446744073709551615 then some ⟨n, h.1, h.2⟩ else none

/-- The whole number zero. -/
def Whole.zero : Whole := ⟨0, by omega, by omega⟩

instance : Inhabited Whole := ⟨Whole.zero⟩

/-- A JSON value. -/
inductive Value where
  | null
  | bool (b : Bool)
  | whole (n : Whole)
  | real (x : Float)
  | text (s : String)
  | list (items : List Value)
  | object (members : List (String × Value))
deriving Inhabited

/-- Puts a member at its place among members in ascending order of names, in place of an earlier
member of the same name. -/
def insertMember {α : Type} (name : String) (v : α) : List (String × α) → List (String × α)
  | [] => [(name, v)]
  | (n, w) :: rest =>
    if name < n then (name, v) :: (n, w) :: rest
    else if name = n then (name, v) :: rest
    else (n, w) :: insertMember name v rest

/-- The members in ascending order of names; of equal names the last one stays. -/
def sortMembers {α : Type} (members : List (String × α)) : List (String × α) :=
  members.foldl (fun acc m => insertMember m.1 m.2 acc) []

namespace Value

mutual

/-- The value with the members of every object in order, each name once. -/
def sorted : Value → Value
  | .list items => .list (sortedAll items)
  | .object members => .object (sortMembers (sortedMembers members))
  | .null => .null
  | .bool b => .bool b
  | .whole n => .whole n
  | .real x => .real x
  | .text s => .text s

/-- Each item sorted. -/
def sortedAll : List Value → List Value
  | [] => []
  | v :: rest => v.sorted :: sortedAll rest

/-- Each member's value sorted. -/
def sortedMembers : List (String × Value) → List (String × Value)
  | [] => []
  | (n, v) :: rest => (n, v.sorted) :: sortedMembers rest

end

mutual

/-- Equality of values; floats are compared as numbers, so that NaN differs from itself. -/
def same : Value → Value → Bool
  | .null, .null => true
  | .bool a, .bool b => a == b
  | .whole a, .whole b => a = b
  | .real a, .real b => a == b
  | .text a, .text b => a == b
  | .list a, .list b => sameAll a b
  | .object a, .object b => sameMembers a b
  | _, _ => false

/-- Equality item by item. -/
def sameAll : List Value → List Value → Bool
  | [], [] => true
  | a :: as, b :: bs => a.same b && sameAll as bs
  | _, _ => false

/-- Equality member by member. -/
def sameMembers : List (String × Value) → List (String × Value) → Bool
  | [], [] => true
  | (m, a) :: as, (n, b) :: bs => m == n && a.same b && sameMembers as bs
  | _, _ => false

end

/-- The value of the last member called `name`. -/
def member? (v : Value) (name : String) : Option Value :=
  match v with
  | .object members => (members.reverse.find? (fun m => m.1 == name)).map (·.2)
  | _ => none

end Value

end Roaming.Json
