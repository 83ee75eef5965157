import Reckoner.Token

/-! # Values

A value is an exact rational, or lost: the value of a subexpression that error
recovery skipped.  A lost operand absorbs every operation, also one that would
fail on numbers. -/
set_option autoImplicit false
namespace Reckoner

inductive Value where
  | lost
  | number (q : Rat)
  deriving DecidableEq, Repr, Inhabited

inductive Fault where
  | divisionByZero
  | unsupported (kind : Kind)
  deriving DecidableEq, Repr, Inhabited

def Fault.message : Fault → Text
  | .divisionByZero => utf8 "division by zero"
  | .unsupported k => utf8 "unsupported operator " ++ utf8 k.name

namespace Value

def isNumber : Value → Bool
  | .lost => false
  | .number _ => true

def rat? : Value → Option Rat
  | .lost => none
  | .number q => some q

def ofInt (n : Int) : Value := .number n

def operate (op : Kind) (a b : Rat) : Except Fault Rat :=
  match op with
  | .symbol .plus => .ok (a + b)
  | .symbol .minus => .ok (a - b)
  | .symbol .star => .ok (a * b)
  | .symbol .slash => if b = 0 then .error .divisionByZero else .ok (a / b)
  | k => .error (.unsupported k)

/-- The operation on two values: lost as soon as one of them is. -/
def apply (op : Kind) : Value → Value → Except Fault Value
  | .number a, .number b => (operate op a b).map .number
  | _, _ => .ok .lost

end Value
end Reckoner
