import Reckoner.Path
import Reckoner.Percent

/-! # Request targets

A target is a path and a query.  Requests are routed by the path as it is
escaped; a path that is not clean is sent back to its clean spelling. -/
set_option autoImplicit false
namespace Reckoner.Web

structure Target where
  path : Text
  query : Text
  deriving DecidableEq, Repr, Inhabited

namespace Target

/-- The fragment of an address is not part of the target. -/
def ofText (t : Text) : Target :=
  let (address, _) := Text.cut 35 t
  let (path, query) := Text.cut 63 address
  ⟨path, query.getD []⟩

def isPathByte (b : UInt8) : Bool := Percent.isUnreserved b || (utf8 "$&+,/:;=@").contains b

def isWrittenByte (b : UInt8) : Bool := isPathByte b || (utf8 "!'()*[]%").contains b

/-- The path as it was written if that is legal, else escaped anew. -/
def escapedPath (t : Target) : Text :=
  if t.path.all isWrittenByte then t.path
  else Percent.encode isPathByte ((Percent.decode t.path).getD t.path)

def cleanPath (p : Text) : Text :=
  if p.isEmpty then [Path.slash]
  else
    let cleaned := Path.clean (if Path.isRooted p then p else Path.slash :: p)
    if p.getLast? = some Path.slash && cleaned != [Path.slash] then cleaned ++ [Path.slash]
    else cleaned

def asciiOnly (t : Text) : Text :=
  t.flatMap fun b => if 128 ≤ b then 37 :: Text.hexByte b else [b]

/-- Where a target leads whose clean path is given, escapes and all. -/
def address (cleaned query : Text) : Text :=
  cleaned ++ if query.isEmpty then [] else 63 :: query

def elements (p : Text) : List Text :=
  ((p.splitOn Path.slash).drop 1).map fun e => (Percent.decode e).getD e

end Target
end Reckoner.Web
