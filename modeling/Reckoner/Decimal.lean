import Reckoner.Text

/-! # Decimal numerals

A decimal is a coefficient scaled by a power of ten.  A layout says for which
magnitudes it is written positionally and how wide an exponent is at least. -/
set_option autoImplicit false
namespace Reckoner

/-- The number `coefficient * 10 ^ scale`. -/
structure Decimal where
  coefficient : Nat
  scale : Int
  deriving DecidableEq, Repr, Inhabited

/-- Where positional writing begins and ends, by the power of ten of the
leading digit, and the least number of exponent digits beyond. -/
structure Layout where
  positionalFrom : Int
  positionalBelow : Int
  exponentWidth : Nat
  deriving DecidableEq, Repr

def zeros (n : Nat) : Text := List.replicate n 48

def padded (width n : Nat) : Text :=
  let digits := Text.ofNat n
  zeros (width - digits.length) ++ digits

/-- The numeral of `n / 10 ^ places` with exactly that many places. -/
def fixedPoint (places n : Nat) : Text :=
  if places = 0 then Text.ofNat n
  else Text.ofNat (n / Nat.pow 10 places) ++ 46 :: padded places (n % Nat.pow 10 places)

namespace Decimal

/-- Drops zeros from the end of the coefficient, at most as many as the fuel. -/
def trimmed : Nat → Decimal → Decimal
  | 0, d => d
  | fuel + 1, d =>
    if d.coefficient ≠ 0 ∧ d.coefficient % 10 = 0 then
      trimmed fuel ⟨d.coefficient / 10, d.scale + 1⟩
    else d

def leading (d : Decimal) : Int := d.scale + (Text.ofNat d.coefficient).length - 1

def positional (d : Decimal) : Text :=
  if 0 ≤ d.scale then Text.ofNat d.coefficient ++ zeros d.scale.toNat
  else fixedPoint (-d.scale).toNat d.coefficient

def scientific (exponentWidth : Nat) (d : Decimal) : Text :=
  let x := d.leading
  let mantissa := match Text.ofNat d.coefficient with
    | [] => []
    | [c] => [c]
    | c :: more => c :: 46 :: more
  let sign : UInt8 := if x < 0 then 45 else 43
  mantissa ++ 101 :: sign :: padded exponentWidth x.natAbs

def render (layout : Layout) (d : Decimal) : Text :=
  if d.coefficient = 0 then [48]
  else if d.leading < layout.positionalFrom ∨ layout.positionalBelow ≤ d.leading then
    d.scientific layout.exponentWidth
  else d.positional

end Decimal
end Reckoner
