import Reckoner.Position

/-! # Tokens

A lexeme is a number or one of seven punctuation symbols.  Tokens made by hand
may also be of no known kind, and their numbers may be negative.  A kind is a
lexeme without its number. -/
set_option autoImplicit false
namespace Reckoner

inductive Symbol where
  | plus | minus | star | slash | lparen | rparen | semi
  deriving DecidableEq, Repr, Inhabited

inductive Kind where
  | number
  | symbol (s : Symbol)
  | unknown
  deriving DecidableEq, Repr, Inhabited

inductive Lexeme where
  | number (value : Int)
  | symbol (s : Symbol)
  | unknown
  deriving DecidableEq, Repr, Inhabited

structure Token where
  lexeme : Lexeme
  span : Span := {}
  deriving DecidableEq, Repr, Inhabited

namespace Symbol

def all : List Symbol := [.plus, .minus, .star, .slash, .lparen, .rparen, .semi]

def name : Symbol → String
  | .plus => "PLUS"
  | .minus => "MINUS"
  | .star => "STAR"
  | .slash => "SLASH"
  | .lparen => "LPAREN"
  | .rparen => "RPAREN"
  | .semi => "SEMI"

def char : Symbol → Char
  | .plus => '+'
  | .minus => '-'
  | .star => '*'
  | .slash => '/'
  | .lparen => '('
  | .rparen => ')'
  | .semi => ';'

def ofChar? (c : Char) : Option Symbol := all.find? fun s => s.char == c

end Symbol

namespace Kind

def name : Kind → String
  | .number => "NUMBER"
  | .symbol s => s.name
  | .unknown => "Unknown"

/-- The source text of a symbol; for the other kinds their name. -/
def sign : Kind → String
  | .symbol s => s.char.toString
  | k => k.name

/-- The numeric code of each kind: numbers are 0, symbols 1 to 7 in order. -/
def ofCode (code : Int) : Kind :=
  if code = 0 then .number
  else if 1 ≤ code ∧ code ≤ 7 then
    match Symbol.all[(code - 1).toNat]? with
    | some s => .symbol s
    | none => .unknown
  else .unknown

def codeOf (s : Symbol) : Nat := Symbol.all.idxOf s + 1

end Kind

namespace Lexeme

def kind : Lexeme → Kind
  | .number _ => .number
  | .symbol s => .symbol s
  | .unknown => .unknown

end Lexeme

namespace Token

def kind (t : Token) : Kind := t.lexeme.kind

def text (t : Token) : Text :=
  match t.lexeme with
  | .number n => utf8 "NUMBER:" ++ Text.ofInt n
  | l => utf8 l.kind.name

/-- The token as messages quote it: a number as in a listing, else its sign. -/
def quote (t : Token) : Text :=
  match t.lexeme with
  | .number n => utf8 "NUMBER:" ++ Text.ofInt n
  | l => utf8 l.kind.sign

def listing (ts : List Token) : Text :=
  utf8 "Tokens: [" ++ Text.join (utf8 ", ") (ts.map text) ++ utf8 "]"

end Token
end Reckoner
