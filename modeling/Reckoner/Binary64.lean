import Reckoner.Text

/-! # Binary64 numbers

The numbers of the 64-bit binary format, and rounding of rationals to the
nearest of them: a tie goes to the even mantissa, magnitudes beyond the range
become infinite, and a negative number that rounds to zero keeps its sign. -/
set_option autoImplicit false
namespace Reckoner

/-- A finite number is `mantissa * 2 ^ exponent` with its sign apart. -/
inductive Binary64 where
  | finite (negative : Bool) (mantissa : Nat) (exponent : Int)
  | infinite (negative : Bool)
  deriving DecidableEq, Repr, Inhabited

/-- The integer nearest to a quotient, the even one of two. -/
def roundedQuotient (n d : Nat) : Nat :=
  let q := n / d
  let r := n % d
  if 2 * r < d then q
  else if d < 2 * r then q + 1
  else q + q % 2

def binaryOrder (n d : Nat) : Int :=
  let k : Int := (n.log2 : Int) - (d.log2 : Int)
  if n * Nat.pow 2 (-k).toNat < d * Nat.pow 2 k.toNat then k - 1 else k

namespace Binary64

def leastExponent : Int := -1074

def greatestExponent : Int := 971

def nearestQuotient (negative : Bool) (n d : Nat) : Binary64 :=
  let e := max leastExponent (binaryOrder n d - 52)
  let m := roundedQuotient (n * Nat.pow 2 (-e).toNat) (d * Nat.pow 2 e.toNat)
  let (m, e) := if m = Nat.pow 2 53 then (Nat.pow 2 52, e + 1) else (m, e)
  if greatestExponent < e then .infinite negative else .finite negative m e

def nearest (q : Rat) : Binary64 :=
  if q.num = 0 then .finite false 0 leastExponent
  else nearestQuotient (q.num < 0) q.num.natAbs q.den

def value? : Binary64 → Option Rat
  | .finite negative m e =>
    let q := mkRat (m * Nat.pow 2 e.toNat) (Nat.pow 2 (-e).toNat)
    some (if negative then -q else q)
  | .infinite _ => none

def isNegative : Binary64 → Bool
  | .finite negative _ _ => negative
  | .infinite negative => negative

/-- The interchange encoding: sign, biased exponent, fraction. -/
def toBits (x : Binary64) : UInt64 :=
  let magnitude := match x with
    | .finite _ m e => (e - leastExponent).toNat * Nat.pow 2 52 + m
    | .infinite _ => 2047 * Nat.pow 2 52
  UInt64.ofNat ((if x.isNegative then Nat.pow 2 63 else 0) + magnitude)

end Binary64
end Reckoner
