import Reckoner.Binary64
import Reckoner.Decimal

/-! # Shortest decimals

The shortest decimal of a positive binary64 number is the one with the fewest
digits among those that round to it; of two with equally few digits the nearer
one, and of two equally near the even one.  A decimal rounds to the number
exactly when it lies between the midpoints to the number's neighbours, the
midpoints included for an even mantissa. -/
set_option autoImplicit false
namespace Reckoner.Binary64

/-- The numbers that round to `m * 2 ^ e`, as multiples of `1 / unit`. -/
structure Interval where
  low : Nat
  value : Nat
  high : Nat
  unit : Nat
  closed : Bool
  deriving Repr

/-- Below the least mantissa of a binade the neighbour is half as far. -/
def interval (m : Nat) (e : Int) : Interval :=
  let below := if m = Nat.pow 2 52 ∧ leastExponent < e then 1 else 2
  let up := Nat.pow 2 (e - 2).toNat
  ⟨(4 * m - below) * up, 4 * m * up, (4 * m + 2) * up, Nat.pow 2 (2 - e).toNat, m % 2 = 0⟩

def decimalOrder (n d : Nat) : Int :=
  if d ≤ n then ((Text.ofNat (n / d)).length : Int) - 1
  else
    let k := (Text.ofNat (d / n)).length
    if d ≤ n * Nat.pow 10 (k - 1) then -((k : Int) - 1) else -(k : Int)

/-- The multiple of `10 ^ scale` next to the value that lies in the interval:
the nearer one if both neighbours do, the even one if they are equally near. -/
def onGrid (i : Interval) (scale : Int) : Option Decimal :=
  let grid := i.unit * Nat.pow 10 scale.toNat
  let up := Nat.pow 10 (-scale).toNat
  let c := i.value * up / grid
  let r := i.value * up % grid
  let inside (n : Nat) : Bool :=
    if i.closed then i.low * up ≤ n * grid && n * grid ≤ i.high * up
    else i.low * up < n * grid && n * grid < i.high * up
  let chosen := if 2 * r < grid then c else if grid < 2 * r then c + 1 else c + c % 2
  match inside c, inside (c + 1) with
  | true, true => some ⟨chosen, scale⟩
  | true, false => some ⟨c, scale⟩
  | false, true => some ⟨c + 1, scale⟩
  | false, false => none

/-- Seventeen digits always tell two numbers apart. -/
def shortest (m : Nat) (e : Int) : Decimal :=
  if m = 0 then ⟨0, 0⟩
  else
    let i := interval m e
    let x := decimalOrder i.value i.unit
    let found := (List.range 17).findSome? fun (n : Nat) => onGrid i (x - (n : Int))
    (found.getD ⟨0, 0⟩).trimmed 17

def render (layout : Layout) : Binary64 → Text
  | .infinite negative => utf8 (if negative then "-Inf" else "+Inf")
  | .finite negative m e =>
    let body := (shortest m e).render layout
    if negative then 45 :: body else body

end Reckoner.Binary64
