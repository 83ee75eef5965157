import Reckoner.Text

/-! # Percent escapes

A percent sign and two hexadecimal digits stand for a byte.  In form fields a
plus sign stands for a blank. -/
set_option autoImplicit false
namespace Reckoner.Percent

/-- Decodes behind what is already decoded; fails on a percent sign without two
digits. -/
def decodeOnto (plus : Bool) (done : Array UInt8) : Text → Option Text
  | [] => some done.toList
  | b :: rest =>
    if b = 37 then
      match rest with
      | high :: low :: more =>
        match Text.hexValue? high, Text.hexValue? low with
        | some h, some l => decodeOnto plus (done.push (UInt8.ofNat (16 * h + l))) more
        | _, _ => none
      | _ => none
    else if plus && b = 43 then decodeOnto plus (done.push 32) rest
    else decodeOnto plus (done.push b) rest

def decode (t : Text) : Option Text := decodeOnto false #[] t

def decodeField (t : Text) : Option Text := decodeOnto true #[] t

def isLetterOrDigit (b : UInt8) : Bool :=
  Text.isDigit b || (65 ≤ b && b ≤ 90) || (97 ≤ b && b ≤ 122)

def isUnreserved (b : UInt8) : Bool :=
  isLetterOrDigit b || [45, 95, 46, 126].contains b

def escape (b : UInt8) : Text :=
  let digit (n : Nat) : UInt8 := UInt8.ofNat (if n < 10 then 48 + n else 55 + n)
  [37, digit (b.toNat / 16), digit (b.toNat % 16)]

def encode (plain : UInt8 → Bool) (t : Text) : Text :=
  t.flatMap fun b => if plain b then [b] else escape b

end Reckoner.Percent
