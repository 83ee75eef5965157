import Reckoner.Json.Number

/-! # Shapes of JSON values

A shape says what a parameter has to look like: null fits every shape, missing
members are fine, unknown ones are ignored, and each member with a known name
has to fit. -/
set_option autoImplicit false
namespace Reckoner.Editor

inductive Shape where
  | raw
  /-- Any value; the numbers in it are taken as binary64 numbers. -/
  | any
  | bool
  | string
  | integer (least greatest : Int)
  | natural (greatest : Nat)
  | list (item : Shape)
  | record (members : List (String × Shape))
  | either (this that : Shape)
  deriving Repr, Inhabited

namespace Shape

mutual
def fits : Shape → Json → Bool
  | _, .null => true
  | .raw, _ => true
  | .any, j => j.numbersAreFinite
  | .bool, j => match j with
    | .bool _ => true
    | _ => false
  | .string, j => match j with
    | .string _ => true
    | _ => false
  | .integer least greatest, j => match j with
    | .number literal => (Json.integer? literal).any fun n => least ≤ n && n ≤ greatest
    | _ => false
  | .natural greatest, j => match j with
    | .number literal => (Json.natural? literal).any fun n => n ≤ greatest
    | _ => false
  | .list item, j => match j with
    | .array items => items.all item.fits
    | _ => false
  | .record members, j => match j with
    | .object _ => membersFit members j
    | _ => false
  | .either this that, j => this.fits j || that.fits j

def membersFit : List (String × Shape) → Json → Bool
  | [], _ => true
  | (name, shape) :: rest, j => (j.membersNamed name).all shape.fits && membersFit rest j
end

def int32 : Shape := .integer (-2147483648) 2147483647

def int64 : Shape := .integer (-9223372036854775808) 9223372036854775807

def uint32 : Shape := .natural 4294967295

def uint64 : Shape := .natural 18446744073709551615

def switches (names : List String) (others : List (String × Shape)) : Shape :=
  .record (names.map (fun name => (name, .bool)) ++ others)

def valueSet (item : Shape) : Shape := .record [("valueSet", .list item)]

end Shape
end Reckoner.Editor
