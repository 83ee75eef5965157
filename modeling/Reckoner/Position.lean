import Reckoner.Text.Rune

/-! # Positions in a source

A position counts bytes from 0, lines from 1 and columns from 1; a column is
one rune wide, whatever the rune's width in bytes.  Only the newline rune ends
a line.  Positions made by hand may hold any integers. -/
set_option autoImplicit false
namespace Reckoner

structure Position where
  file : Text := []
  offset : Int := 0
  line : Int := 0
  column : Int := 0
  deriving DecidableEq, Repr, Inhabited

structure Span where
  start : Position := {}
  stop : Position := {}
  deriving DecidableEq, Repr, Inhabited

namespace Position

def origin (file : Text) : Position := ⟨file, 0, 1, 1⟩

def after (p : Position) (r : Rune) : Position :=
  if r = .scalar '\n' then ⟨p.file, p.offset + r.width, p.line + 1, 1⟩
  else ⟨p.file, p.offset + r.width, p.line, p.column + 1⟩

/-- The position behind a number of one-byte runes that end no line. -/
def advance (p : Position) (n : Nat) : Position :=
  { p with offset := p.offset + n, column := p.column + n }

def span (p : Position) : Span := ⟨p, p⟩

end Position
end Reckoner
