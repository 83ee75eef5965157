import Reckoner.Binary64
import Reckoner.Command.Numeral

/-! # Durations

A duration is an optional sign and a sequence of decimal numbers, each with a
unit; a lone zero needs none.  It is a whole number of nanoseconds in 64
bits.  What stands behind a point is scaled in binary64 numbers. -/
set_option autoImplicit false
namespace Reckoner.Command

inductive DurationFault where
  | malformed
  | missingUnit
  | unknownUnit (unit : Text)
  deriving DecidableEq, Repr, Inhabited

namespace Duration

/-- The units in nanoseconds; the micro sign and the Greek letter are both
accepted. -/
def units : List (Text × Nat) :=
  [(utf8 "ns", 1), (utf8 "us", 1000), (utf8 "µs", 1000), (utf8 "μs", 1000), (utf8 "ms", 1000000),
    (utf8 "s", 1000000000), (utf8 "m", 60000000000), (utf8 "h", 3600000000000)]

def limit : Nat := Nat.pow 2 63

def isNumeric (b : UInt8) : Bool := Text.isDigit b || b = 46

/-- Digits behind a point: the number they write, as far as it has 63 bits, and
the power of ten that divides it. -/
structure Fraction where
  amount : Nat := 0
  scale : Binary64 := .nearest 1
  /-- The digits that are left no longer count. -/
  full : Bool := false
  deriving DecidableEq, Repr, Inhabited

namespace Fraction

def tenfold (x : Binary64) : Binary64 :=
  match x.value? with
  | some q => .nearest (10 * q)
  | none => x

def push (f : Fraction) (digit : UInt8) : Fraction :=
  let amount := 10 * f.amount + (digit.toNat - 48)
  if f.full then f
  else if (limit - 1) / 10 < f.amount || limit < amount then { f with full := true }
  else { f with amount := amount, scale := tenfold f.scale }

def ofDigits (digits : Text) : Fraction := digits.foldl push {}

/-- The fraction of a unit, rounded down.  The unit is divided first, and every
step is rounded; behind a point that is too far away nothing is left. -/
def ofUnit (f : Fraction) (size : Nat) : Nat :=
  match f.scale.value?, (Binary64.nearest f.amount).value? with
  | some scale, some amount =>
    match (Binary64.nearest (size / scale)).value? with
    | some share => (((Binary64.nearest (amount * share)).value?.getD 0).floor).toNat
    | none => 0
  | _, _ => 0

end Fraction

def term (t : Text) : Except DurationFault (Nat × Text) :=
  let whole := t.takeWhile Text.isDigit
  let behind := t.dropWhile Text.isDigit
  let tail := if behind.head? = some 46 then behind.drop 1 else behind
  let fraction := if behind.head? = some 46 then tail.takeWhile Text.isDigit else []
  let rest := tail.drop fraction.length
  let unit := rest.takeWhile fun b => !isNumeric b
  if (whole.isEmpty && fraction.isEmpty) || limit < Text.toNat whole then .error .malformed
  else if unit.isEmpty then .error .missingUnit
  else
    match units.lookup unit with
    | none => .error (.unknownUnit unit)
    | some size =>
      let n := Text.toNat whole * size + (Fraction.ofDigits fraction).ofUnit size
      if limit < n then .error .malformed else .ok (n, rest.drop unit.length)

/-- The sum of the numbers that are left, in 64 bits; every one of them takes at
least one byte. -/
def sum (fuel total : Nat) (t : Text) : Except DurationFault Nat :=
  match fuel with
  | 0 => .error .malformed
  | fuel + 1 =>
    match t with
    | [] => .ok total
    | b :: rest =>
      if !isNumeric b then .error .malformed
      else
        match term (b :: rest) with
        | .error e => .error e
        | .ok (n, rest) =>
          let total := (total + n) % (2 * limit)
          if limit < total then .error .malformed else sum fuel total rest

def nanoseconds (t : Text) : Except DurationFault Int :=
  let (negative, amount) := Numeral.sign t
  if amount = [48] then .ok 0
  else if amount.isEmpty then .error .malformed
  else
    match sum (amount.length + 1) 0 amount with
    | .error e => .error e
    | .ok n =>
      if negative then .ok (-(n : Int)) else if limit ≤ n then .error .malformed else .ok n

end Duration

def DurationFault.message (t : Text) : DurationFault → Text
  | .malformed => utf8 "time: invalid duration " ++ t.quotedBytes
  | .missingUnit => utf8 "time: missing unit in duration " ++ t.quotedBytes
  | .unknownUnit unit =>
    utf8 "time: unknown unit " ++ unit.quotedBytes ++ utf8 " in duration " ++ t.quotedBytes

end Reckoner.Command
