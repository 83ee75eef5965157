import Reckoner.Path
import Reckoner.Percent

/-! # File addresses

A `file` address is split into authority, path, query and fragment.  Its path,
unescaped and cleaned, names the file; the authority has to be well-formed but
names nothing, and the query is not looked at.  Any other text is taken for a
path as it is. -/
set_option autoImplicit false
namespace Reckoner.FileUri

def isNumberSuffix (t : Text) : Bool :=
  match t with
  | [] => true
  | b :: digits => b = 58 && digits.all Text.isDigit

def isHostByte (b : UInt8) : Bool :=
  128 ≤ b || Percent.isUnreserved b || (utf8 "!$&'()*+,;=:[]<>\"").contains b

/-- A host holds host bytes and escapes; an escape stands for a byte above
ASCII or for the percent sign. -/
def decodeHost (t : Text) : Option Text :=
  if bare t && escapes t then Percent.decode t else none
where
  bare : Text → Bool
    | [] => true
    | b :: rest =>
      if b = 37 then
        match rest with
        | _ :: _ :: more => bare more
        | _ => false
      else isHostByte b && bare rest
  escapes : Text → Bool
    | [] => true
    | b :: rest =>
      if b = 37 then
        match rest with
        | high :: low :: more =>
          (high = 50 && low = 53 || (Text.hexValue? high).any (8 ≤ ·)) && escapes more
        | _ => false
      else escapes rest

/-- A zone may hold escapes of blanks and of whatever may stand in a host. -/
def decodeZone (t : Text) : Option Text :=
  if allowed t then Percent.decode t else none
where
  allowed : Text → Bool
    | [] => true
    | b :: rest =>
      if b = 37 then
        match rest with
        | high :: low :: more =>
          match Text.hexValue? high, Text.hexValue? low with
          | some h, some l =>
            let v := UInt8.ofNat (16 * h + l)
            (v = 37 || v = 32 || (v < 128 && isHostByte v)) && allowed more
          | _, _ => false
        | _ => false
      else isHostByte b && allowed rest

/-- A field of a dotted address: at most 255, without leading zeros. -/
def isOctet (t : Text) : Bool :=
  match t with
  | [] => false
  | [d] => Text.isDigit d
  | d :: _ => d != 48 && t.length ≤ 3 && t.all Text.isDigit && Text.toNat t ≤ 255

def isDotted (t : Text) : Bool :=
  let fields := t.splitOn 46
  fields.length = 4 && fields.all isOctet

def isHexGroup (t : Text) : Bool :=
  !t.isEmpty && t.length ≤ 4 && t.all fun b => (Text.hexValue? b).isSome

/-- How many groups a colon-separated part has; its last group may be a dotted
address, which counts twice, if that is allowed. -/
def groups? (dotted : Bool) (t : Text) : Option Nat :=
  if t.isEmpty then some 0
  else
    let fields := t.splitOn 58
    if fields.all isHexGroup then some fields.length
    else if dotted && fields.dropLast.all isHexGroup && (fields.getLast?).any isDotted then
      some (fields.length + 1)
    else none

def ellipsis? : Text → Option (Text × Text)
  | [] => none
  | b :: rest =>
    if b = 58 && rest.head? = some 58 then some ([], rest.drop 1)
    else (ellipsis? rest).map fun (before, behind) => (b :: before, behind)

def isGroupedAddress (t : Text) : Bool :=
  match ellipsis? t with
  | none => groups? true t = some 8
  | some (before, behind) =>
    match groups? false before, groups? true behind with
    | some n, some m => n + m ≤ 7
    | _, _ => false

def isLiteralAddress (t : Text) : Bool :=
  match Text.cut 37 t with
  | (address, none) => isGroupedAddress address
  | (address, some zone) => !zone.isEmpty && isGroupedAddress address

def cutLast (mark : UInt8) (t : Text) : Option (Text × Text) :=
  match Text.cut mark t.reverse with
  | (_, none) => none
  | (behind, some before) => some (before.reverse, behind.reverse)

def zoneAt? : Text → Option (Text × Text)
  | [] => none
  | b :: rest =>
    if (utf8 "%25").isPrefixOf (b :: rest) then some ([], b :: rest)
    else (zoneAt? rest).map fun (before, zone) => (b :: before, zone)

def decodeLiteral (t : Text) : Option Text :=
  match zoneAt? t with
  | none => decodeHost t
  | some (before, zone) =>
    match decodeHost before, decodeZone zone with
    | some a, some z => some (a ++ z)
    | _, _ => none

/-- Whether a host with an optional number behind it is well-formed: a name, or an address
in brackets. -/
def isHost (t : Text) : Bool :=
  match cutLast 91 t with
  | some ([], literal) =>
    match cutLast 93 literal with
    | none => false
    | some (address, number) =>
      isNumberSuffix number && (decodeLiteral address).any isLiteralAddress
  | some (_ :: _, _) => false
  | none =>
    let numberFits := match cutLast 58 t with
      | none => true
      | some (_, number) => number.all Text.isDigit
    numberFits && (decodeHost t).isSome

def isUserByte (b : UInt8) : Bool :=
  Percent.isUnreserved b || (utf8 ":!$&'()*+,;=%@").contains b

def isAuthority (t : Text) : Bool :=
  match cutLast 64 t with
  | none => isHost t
  | some (user, host) => isHost host && user.all isUserByte && (Percent.decode user).isSome

def isControl (b : UInt8) : Bool := b < 32 || b = 127

def scheme : Text := utf8 "file://"

/-- The path that a text names; `none` for a malformed `file` address. -/
def toPath (uri : Text) : Option Text :=
  match Text.dropHead? scheme uri with
  | none => some uri
  | some rest =>
    let (address, fragment) := Text.cut 35 rest
    let (located, _) := Text.cut 63 address
    let authority := located.takeWhile (· != Path.slash)
    let path := located.dropWhile (· != Path.slash)
    if address.any isControl || !isAuthority authority then none
    else if (Percent.decode (fragment.getD [])).isNone then none
    else (Percent.decode path).map Path.clean

end Reckoner.FileUri
