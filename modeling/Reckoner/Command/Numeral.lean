import Reckoner.Text.Quoted

/-! # Integer numerals

An integer is an optional sign and a numeral: decimal, or binary, octal or
hexadecimal behind `0b`, `0o` and `0x`; a leading zero alone means octal too.
Underscores may stand between digits.  Integers have 64 bits. -/
set_option autoImplicit false
namespace Reckoner.Command

inductive NumeralFault where
  | malformed
  | outOfRange
  deriving DecidableEq, Repr, Inhabited

namespace Numeral

def digitValue? (b : UInt8) : Option Nat :=
  let l := Text.lowerByte b
  if Text.isDigit b then some (b.toNat - 48)
  else if 97 ≤ l && l ≤ 122 then some (l.toNat - 87)
  else none

def base (t : Text) : Nat × Text :=
  match t with
  | 48 :: mark :: d :: rest =>
    match [((98 : UInt8), 2), (111, 8), (120, 16)].lookup (Text.lowerByte mark) with
    | some b => (b, d :: rest)
    | none => (8, mark :: d :: rest)
  | 48 :: rest => (8, rest)
  | t => (10, t)

/-- The number that digits stand for, behind what was already read.  It is out
of range as soon as it needs more than 64 bits. -/
def magnitude (base n : Nat) : Text → Except NumeralFault Nat
  | [] => .ok n
  | b :: rest =>
    if b = 95 then magnitude base n rest
    else
      match digitValue? b with
      | none => .error .malformed
      | some d =>
        if base ≤ d then .error .malformed
        else if Nat.pow 2 64 ≤ base * n + d then .error .outOfRange
        else magnitude base (base * n + d) rest

/-- Whether every underscore stands between two other bytes; `fresh` says that
one may come next. -/
def areSeparators (fresh : Bool) : Text → Bool
  | [] => fresh
  | b :: rest => if b = 95 then fresh && areSeparators false rest else areSeparators true rest

def natural (t : Text) : Except NumeralFault Nat :=
  if t.isEmpty then .error .malformed
  else
    match magnitude (base t).1 0 (base t).2 with
    | .error e => .error e
    | .ok n => if areSeparators false t then .ok n else .error .malformed

def sign (t : Text) : Bool × Text :=
  match t with
  | [] => (false, [])
  | b :: rest =>
    if b = 45 then (true, rest) else if b = 43 then (false, rest) else (false, b :: rest)

def integer (t : Text) : Except NumeralFault Int :=
  let (negative, digits) := sign t
  match natural digits with
  | .error e => .error e
  | .ok n =>
    if negative then if Nat.pow 2 63 < n then .error .outOfRange else .ok (-(n : Int))
    else if Nat.pow 2 63 ≤ n then .error .outOfRange else .ok n

end Numeral

def NumeralFault.message (t : Text) (fault : NumeralFault) : Text :=
  utf8 "strconv.ParseInt: parsing " ++ t.quoted ++
    match fault with
    | .malformed => utf8 ": invalid syntax"
    | .outOfRange => utf8 ": value out of range"

end Reckoner.Command
