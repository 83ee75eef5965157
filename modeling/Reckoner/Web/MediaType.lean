import Reckoner.Text.Blank
import Reckoner.Text.Lowercase

/-! # Media types

A media type is a token, or two tokens with a slash between them, followed by
parameters.  A parameter is named by a token, and its value is a token or a
quoted string.  The same parameter may be given twice only with the same
value. -/
set_option autoImplicit false
namespace Reckoner.Web

def trimStart (t : Text) : Text :=
  match _read : Rune.decode t with
  | none => []
  | some (r, rest) => if r.isBlank then trimStart rest else t
termination_by t.length
decreasing_by exact Rune.length_of_decode ‹_›

def trim (t : Text) : Text :=
  (((Rune.all t).dropWhile Rune.isBlank).reverse.dropWhile Rune.isBlank).reverse.flatMap Rune.bytes

namespace MediaType

def isSpecial (b : UInt8) : Bool := (utf8 "()<>@,;:\\\"/[]?=").contains b

def isTokenByte (b : UInt8) : Bool := 32 < b && b < 127 && !isSpecial b

def token (t : Text) : Text × Text := (t.takeWhile isTokenByte, t.dropWhile isTokenByte)

def isName (t : Text) : Bool :=
  match token t with
  | ([], _) => false
  | (_, []) => true
  | (_, b :: rest) => b = 47 && !rest.isEmpty && rest.all isTokenByte

/-- The contents of a quoted string whose opening mark has been read.  A
backslash escapes a special byte only, and a line break is not allowed. -/
def quotedValue (done : Array UInt8) : Text → Option (Text × Text)
  | [] => none
  | b :: rest =>
    if b = 34 then some (done.toList, rest)
    else if b = 92 then
      match rest with
      | [] => none
      | c :: more =>
        if isSpecial c then quotedValue (done.push c) more
        else quotedValue (done.push b) (c :: more)
    else if b = 13 || b = 10 then none
    else quotedValue (done.push b) rest

def value? (t : Text) : Option (Text × Text) :=
  match t with
  | 34 :: rest => quotedValue #[] rest
  | t =>
    match token t with
    | ([], _) => none
    | found => some found

def parameter? (t : Text) : Option ((Text × Text) × Text) :=
  match trimStart t with
  | 59 :: rest =>
    match token (trimStart rest) with
    | ([], _) => none
    | (name, rest) =>
      match trimStart rest with
      | 61 :: rest =>
        (value? (trimStart rest)).map fun (value, rest) => ((Text.lowerAscii name, value), rest)
      | _ => none
  | _ => none

/-- Whether the rest of a media type is a sequence of parameters that do not
contradict each other or those already seen. -/
def areParameters (fuel : Nat) (seen : List (Text × Text)) (t : Text) : Bool :=
  match fuel with
  | 0 => false
  | fuel + 1 =>
    if (trimStart t).isEmpty then true
    else
      match parameter? t with
      | none => trim t = [59]
      | some ((name, value), rest) =>
        (seen.lookup name).all (· == value) && areParameters fuel ((name, value) :: seen) rest

end MediaType

/-- The name of a media type in lower case; `none` if anything about the media
type is malformed. -/
def mediaType? (t : Text) : Option Text :=
  let (base, parameters) := (t.takeWhile (· != 59), t.dropWhile (· != 59))
  let name := trim (Text.lowercase base)
  if MediaType.isName name && MediaType.areParameters (parameters.length + 1) [] parameters then
    some name
  else none

end Reckoner.Web
