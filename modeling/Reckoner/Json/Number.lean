import Reckoner.Binary64
import Reckoner.Json

/-! # Numbers in JSON

A number is kept as its literal.  It can be taken as an integer, if it is
written without point and exponent, or as a binary64 number, if it is not too
large for one. -/
set_option autoImplicit false
namespace Reckoner.Json

def natural? (digits : Text) : Option Nat :=
  if !digits.isEmpty && digits.all Text.isDigit then some (Text.toNat digits) else none

def integer? (literal : Text) : Option Int :=
  match literal with
  | 45 :: digits => (natural? digits).map fun n => -(n : Int)
  | digits => (natural? digits).map fun n => (n : Int)

def exponentOf (t : Text) : Int :=
  match t with
  | 45 :: digits => -(Text.toNat digits : Int)
  | 43 :: digits => Text.toNat digits
  | digits => Text.toNat digits

/-- The digits of a literal from the first that is not zero, and the power of
ten below which its magnitude lies, closely. -/
def magnitude (literal : Text) : Text × Int :=
  let body := literal.filter (· != 45)
  let mark (b : UInt8) : Bool := b = 69 || b = 101
  let (integer, fraction) := Text.cut 46 (body.takeWhile fun b => !mark b)
  let exponent := exponentOf ((literal.dropWhile fun b => !mark b).drop 1)
  let digits := (integer ++ fraction.getD []).dropWhile (· == 48)
  (digits, (digits.length : Int) + exponent - ((fraction.getD []).length : Int))

def greatestOrder : Int := 309

def isFiniteLiteral (literal : Text) : Bool :=
  let (digits, order) := magnitude literal
  if digits.isEmpty || order < greatestOrder then true
  else if greatestOrder < order then false
  else
    let scale := order - digits.length
    let n := Text.toNat digits * Nat.pow 10 scale.toNat
    match Binary64.nearestQuotient false n (Nat.pow 10 (-scale).toNat) with
    | .finite _ _ _ => true
    | .infinite _ => false

mutual
def numbersAreFinite : Json → Bool
  | .number literal => isFiniteLiteral literal
  | .array items => itemsAreFinite items
  | .object members => membersAreFinite members
  | _ => true

def itemsAreFinite : List Json → Bool
  | [] => true
  | j :: rest => numbersAreFinite j && itemsAreFinite rest

def membersAreFinite : List (Text × Json) → Bool
  | [] => true
  | (_, j) :: rest => numbersAreFinite j && membersAreFinite rest
end

end Reckoner.Json
