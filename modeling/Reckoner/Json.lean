import Reckoner.Text.Rune

/-! # JSON values

Objects keep their members in written order, and may name one twice.  A number
is kept as its literal, so that nothing is rounded on the way. -/
set_option autoImplicit false
namespace Reckoner

inductive Json where
  | null
  | bool (b : Bool)
  | number (literal : Text)
  | string (t : Text)
  | array (items : List Json)
  | object (members : List (Text × Json))
  deriving Repr, Inhabited

namespace Json

def ofInt (i : Int) : Json := .number (Text.ofInt i)

def word (s : String) : Json := .string (utf8 s)

/-- A rune with the case of letters removed, as far as ASCII letters are
concerned: the long s and the Kelvin sign are letters in disguise. -/
def foldedRune : Rune → Text
  | .stray b => [b]
  | .scalar c =>
    if c.toNat = 0x17F then [115]
    else if c.toNat = 0x212A then [107]
    else Text.lowerAscii (String.utf8EncodeChar c)

def names (name : String) (t : Text) : Bool :=
  (Rune.all t).flatMap foldedRune == Text.lowerAscii (utf8 name)

def membersNamed (name : String) : Json → List Json
  | .object members => (members.filter fun m => names name m.1).map Prod.snd
  | _ => []

def isNull : Json → Bool
  | .null => true
  | _ => false

def lastMember? (name : String) (j : Json) : Option Json :=
  (j.membersNamed name).getLast?.filter fun v => !v.isNull

def merged (name : String) (j : Json) : Json :=
  .object ((j.membersNamed name).flatMap fun v => match v with
    | .object members => members
    | _ => [])

def text? : Json → Option Text
  | .string t => some t
  | _ => none

/-- The text that members of a name set: the last that is not null counts. -/
def memberText? (name : String) (j : Json) : Option Text :=
  ((j.membersNamed name).filterMap text?).getLast?

/-- The text that members of a name set, where null takes it back. -/
def lastText? (name : String) (j : Json) : Option Text := (j.lastMember? name).bind text?

end Json
end Reckoner
