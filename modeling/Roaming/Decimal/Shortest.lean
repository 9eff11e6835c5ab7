/-!
# The fewest decimal digits that read back

A finite binary number is `m * 2^q`. The reals that round to it form an interval (`Binary.covers`);
`shortest` tries the decimal grids from coarse to fine and takes, on the first grid with a point in
the interval, the point nearest to the number, of two equally near ones the even one.
-/

set_option autoImplicit false
set_option relaxedAutoImplicit false

namespace Roaming.Decimal

/-- A finite number without sign, `m * 2^q`; `narrow` says that the gap to the number below is half
the gap to the number above. -/
structure Binary where
  m : Nat
  q : Int
  narrow : Bool

/-- The number with the given bits, its sign left out. The bits are those of a finite number. -/
def Binary.ofBits (b : UInt64) : Binary :=
  let e := ((b >>> 52) &&& 0x7FF).toNat
  let f := (b &&& 0xFFFFFFFFFFFFF).toNat
  if e = 0 then ⟨f, -1074, false⟩ else ⟨0x10000000000000 + f, (e : Int) - 1075, f == 0 && e > 1⟩

/-- A decimal, `digits * 10^exp`. -/
structure Dec where
  digits : Nat
  exp : Int
deriving DecidableEq

/-- `a * 10^i * 2^j`. -/
def scaled (a i j : Nat) : Nat := a * Nat.pow 10 i * Nat.pow 2 j

/-- Compares `a * 10^i` with `n * 2^j`. -/
def compareScaled (a : Nat) (i : Int) (n : Nat) (j : Int) : Ordering :=
  compare (scaled a i.toNat (-j).toNat) (scaled n (-i).toNat j.toNat)

/-- Whether the decimal is among the reals that round to the number, ties going to the even one. -/
def Binary.covers (x : Binary) (d : Dec) : Bool :=
  let low := if x.narrow then 4 * x.m - 1 else 4 * x.m - 2
  let high := 4 * x.m + 2
  let closed := x.m % 2 == 0
  let cl := compareScaled d.digits d.exp low (x.q - 2)
  let ch := compareScaled d.digits d.exp high (x.q - 2)
  (cl == .gt || (closed && cl == .eq)) && (ch == .lt || (closed && ch == .eq))

/-- The least `k` with `m * 2^q < 10^k`, looked for around the estimate from the binary length. -/
def Binary.scale (x : Binary) : Int :=
  let estimate := ((x.m.log2 : Int) + x.q) * 1233 / 4096
  let fits (k : Int) : Bool := compareScaled 1 k x.m x.q == .gt
  if fits (estimate - 1) then estimate - 1
  else if fits estimate then estimate
  else if fits (estimate + 1) then estimate + 1
  else estimate + 2

/-- The point nearest to the number on the grid of step `10^g`, if a point of the grid next to the
number reads back as the number. -/
def Binary.onGrid? (x : Binary) (g : Int) : Option Dec :=
  let num := scaled x.m (-g).toNat x.q.toNat
  let den := scaled 1 g.toNat (-x.q).toNat
  let below := num / den
  let lower : Dec := ⟨below, g⟩
  let upper : Dec := ⟨below + 1, g⟩
  match x.covers lower, x.covers upper with
  | false, false => none
  | true, false => some lower
  | false, true => some upper
  | true, true =>
    match compare (2 * num) ((2 * below + 1) * den) with
    | .lt => some lower
    | .gt => some upper
    | .eq => if below % 2 = 0 then some lower else some upper

/-- Moves trailing zeros of the digits into the exponent, at most `n` of them. -/
def Dec.strip : Nat → Dec → Dec
  | 0, d => d
  | n + 1, d =>
    if d.digits ≠ 0 ∧ d.digits % 10 = 0 then Dec.strip n ⟨d.digits / 10, d.exp + 1⟩ else d

/-- The shortest decimal that reads back as the number, which is not zero. Seventeen digits always
suffice; the number itself stands behind them as a last resort. -/
def Binary.shortest (x : Binary) : Dec :=
  let k := x.scale
  match (List.range 17).findSome? (fun n => x.onGrid? (k - (n + 1 : Nat))) with
  | some d => d.strip 17
  | none => ⟨scaled x.m 0 x.q.toNat * Nat.pow 5 (-x.q).toNat, -(-x.q).toNat⟩

end Roaming.Decimal
