/-! # Text as bytes

Sources, file names, messages and rendered output are byte sequences: none of
them has to be valid UTF-8.  String literals enter through `utf8`; numbers
enter through `Text.ofNat` and `Text.ofInt`, the plain decimal numerals.
Texts are ordered byte by byte. -/
set_option autoImplicit false
namespace Reckoner

abbrev Text := List UInt8

def utf8 (s : String) : Text := s.toList.flatMap String.utf8EncodeChar

namespace Text

def ofNat (n : Nat) : Text := (Nat.toDigits 10 n).map fun c => UInt8.ofNat c.toNat

def ofInt (i : Int) : Text :=
  if i < 0 then 45 :: ofNat i.natAbs else ofNat i.natAbs

def hexDigit (n : Nat) : UInt8 := UInt8.ofNat (if n < 10 then 48 + n else 87 + n)

def hexByte (b : UInt8) : Text := [hexDigit (b.toNat / 16), hexDigit (b.toNat % 16)]

def hexValue? (b : UInt8) : Option Nat :=
  if 48 ≤ b ∧ b ≤ 57 then some (b.toNat - 48)
  else if 97 ≤ b ∧ b ≤ 102 then some (b.toNat - 87)
  else if 65 ≤ b ∧ b ≤ 70 then some (b.toNat - 55)
  else none

def isDigit (b : UInt8) : Bool := 48 ≤ b && b ≤ 57

def toNat (digits : Text) : Nat := digits.foldl (fun n b => 10 * n + (b.toNat - 48)) 0

/-- The ASCII letter in lower case; every other byte as it is. -/
def lowerByte (b : UInt8) : UInt8 := if 65 ≤ b ∧ b ≤ 90 then b + 32 else b

def lowerAscii (t : Text) : Text := t.map lowerByte

def join (separator : Text) (pieces : List Text) : Text := separator.intercalate pieces

/-- Byte-by-byte order, a proper beginning coming first. -/
def before (a b : Text) : Bool := decide (a < b)

/-- The text up to the first occurrence of a byte, and what follows that
occurrence if there is one. -/
def cut (mark : UInt8) (t : Text) : Text × Option Text :=
  match t.dropWhile (· != mark) with
  | [] => (t, none)
  | _ :: rest => (t.takeWhile (· != mark), some rest)

def dropHead? (head t : Text) : Option Text :=
  if head.isPrefixOf t then some (t.drop head.length) else none

end Text
end Reckoner
