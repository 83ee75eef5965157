import Reckoner.Percent

/-! # Form fields

A form is written as fields with ampersands between them; a field is a name
and a value with an equals sign between them, both escaped.  One malformed
field spoils the form, and so does a number of fields beyond the limit. -/
set_option autoImplicit false
namespace Reckoner.Web

structure Field where
  name : Text
  value : Text
  deriving DecidableEq, Repr, Inhabited

namespace Form

def fieldLimit : Nat := 10000

/-- A field; a field without equals sign has an empty value, and a semicolon is
not allowed anywhere. -/
def field? (t : Text) : Option Field :=
  if t.contains 59 then none
  else
    let (name, value) := Text.cut 61 t
    match Percent.decodeField name, Percent.decodeField (value.getD []) with
    | some name, some value => some ⟨name, value⟩
    | _, _ => none

def fields? (t : Text) : Option (List Field) :=
  let pieces := t.splitOn 38
  if fieldLimit < pieces.length then none
  else (pieces.filter fun p => !p.isEmpty).mapM field?

def first (name : Text) (fields : List Field) : Text :=
  ((fields.find? fun f => f.name == name).map Field.value).getD []

/-- The escaped form of a name or value: a blank is a plus sign. -/
def escaped (t : Text) : Text :=
  t.flatMap fun b =>
    if b = 32 then [43] else if Percent.isUnreserved b then [b] else Percent.escape b

end Form
end Reckoner.Web
