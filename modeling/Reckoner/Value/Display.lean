import Reckoner.Value
import Reckoner.Binary64.Shortest

/-! # Displaying values

Integers and fractions with a finite decimal form are displayed exactly.  Any
other fraction is displayed as the shortest numeral of its nearest binary64
number. -/
set_option autoImplicit false
namespace Reckoner

/-- How often a factor above one divides a number, and what remains. -/
def multiplicity (p d : Nat) : Nat × Nat :=
  if _h : 1 < p ∧ 0 < d ∧ d % p = 0 then
    let (k, rest) := multiplicity p (d / p)
    (k + 1, rest)
  else (0, d)
termination_by d
decreasing_by exact Nat.div_lt_self _h.2.1 _h.1

/-- The places that a denominator needs, if finitely many do: it then has no
prime factor beside two and five. -/
def decimalPlaces? (d : Nat) : Option Nat :=
  let (twos, odd) := multiplicity 2 d
  let (fives, rest) := multiplicity 5 odd
  if rest = 1 then some (max twos fives) else none

namespace Value

/-- Displayed approximations are positional from 0.0001 up to a million, and an
exponent has two digits at least. -/
def layout : Layout := ⟨-4, 6, 2⟩

/-- The numeral of a rational with so many places, halves rounded away from zero; it
is exact if the denominator divides `10 ^ places`. -/
def exact (q : Rat) (places : Nat) : Text :=
  let body := fixedPoint places
    ((2 * (q.num.natAbs * Nat.pow 10 places) + q.den) / (2 * q.den))
  if q.num < 0 then 45 :: body else body

def text : Value → Text
  | .lost => utf8 "<invalid>"
  | .number q =>
    if q.den = 1 then Text.ofInt q.num
    else match decimalPlaces? q.den with
      | some places => exact q places
      | none => (Binary64.nearest q).render layout

def toBinary64 : Value → Binary64
  | .lost => .finite false 0 Binary64.leastExponent
  | .number q => .nearest q

end Value
end Reckoner
