import Reckoner.Text.Rune

/-! # Blank runes

The Unicode property White_Space, as a table of code point ranges.  A stray
byte is never blank. -/
set_option autoImplicit false
namespace Reckoner

/-- First and last code point of each range of White_Space, ascending. -/
def blankRanges : List (Nat × Nat) :=
  [(0x09, 0x0D), (0x20, 0x20), (0x85, 0x85), (0xA0, 0xA0), (0x1680, 0x1680), (0x2000, 0x200A),
   (0x2028, 0x2029), (0x202F, 0x202F), (0x205F, 0x205F), (0x3000, 0x3000)]

def isBlankCode (n : Nat) : Bool := blankRanges.any fun (lo, hi) => lo ≤ n && n ≤ hi

def Rune.isBlank : Rune → Bool
  | .scalar c => isBlankCode c.toNat
  | .stray _ => false

end Reckoner
