import Reckoner.Command.Duration

/-! # Flags

A flag has a name, most have a letter, and each sets one option.  Arguments are
read from left to right: flags may stand anywhere, a double dash ends them, and
everything else is left for the command.  The first thing that is wrong with a
flag is all that is reported. -/
set_option autoImplicit false
namespace Reckoner.Command

inductive Flag where
  | help | version | verbose | format | file | color | timeout | workers | address
  | bare
  deriving DecidableEq, Repr, Inhabited

structure Options where
  help : Bool := false
  version : Bool := false
  verbosity : Int := 0
  format : Text := utf8 "text"
  file : Text := []
  colored : Bool := false
  timeout : Int := 30000000000
  workers : Int := 4
  address : Text := utf8 "localhost:8080"
  bare : Bool := false
  deriving DecidableEq, Repr, Inhabited

inductive ValueFault where
  | switch
  | integer (fault : NumeralFault)
  | duration (fault : DurationFault)
  deriving DecidableEq, Repr, Inhabited

def ValueFault.message (value : Text) : ValueFault → Text
  | .switch => utf8 "strconv.ParseBool: parsing " ++ value.quoted ++ utf8 ": invalid syntax"
  | .integer fault => fault.message value
  | .duration fault => fault.message value

def switch? (t : Text) : Option Bool :=
  if (["1", "t", "T", "TRUE", "true", "True"].map utf8).contains t then some true
  else if (["0", "f", "F", "FALSE", "false", "False"].map utf8).contains t then some false
  else none

namespace Flag

def name : Flag → String
  | .help => "help"
  | .version => "version"
  | .verbose => "verbose"
  | .format => "format"
  | .file => "file"
  | .color => "color"
  | .timeout => "timeout"
  | .workers => "workers"
  | .address => "addr"
  | .bare => "no-descriptions"

def letter? : Flag → Option UInt8
  | .help => some 104
  | .verbose => some 118
  | .format => some 102
  | .timeout => some 116
  | .workers => some 106
  | .address => some 97
  | .version | .file | .color | .bare => none

/-- The value of a flag that is given without one; the others need one. -/
def implied? : Flag → Option Text
  | .help | .version | .color | .bare => some (utf8 "true")
  | .verbose => some (utf8 "+1")
  | _ => none

def display (f : Flag) : Text :=
  match f.letter? with
  | some l => 45 :: l :: utf8 (", --" ++ f.name)
  | none => utf8 ("--" ++ f.name)

def setSwitch (value : Text) (put : Bool → Options) : Except ValueFault Options :=
  match switch? value with
  | some b => .ok (put b)
  | none => .error .switch

def setInteger (value : Text) (put : Int → Options) : Except ValueFault Options :=
  match Numeral.integer value with
  | .ok n => .ok (put n)
  | .error fault => .error (.integer fault)

def set (f : Flag) (value : Text) (o : Options) : Except ValueFault Options :=
  match f with
  | .help => setSwitch value fun b => { o with help := b }
  | .version => setSwitch value fun b => { o with version := b }
  | .color => setSwitch value fun b => { o with colored := b }
  | .verbose =>
    if value = utf8 "+1" then .ok { o with verbosity := o.verbosity + 1 }
    else setInteger value fun n => { o with verbosity := n }
  | .workers => setInteger value fun n => { o with workers := n }
  | .timeout =>
    match Duration.nanoseconds value with
    | .ok n => .ok { o with timeout := n }
    | .error fault => .error (.duration fault)
  | .format => .ok { o with format := value }
  | .file => .ok { o with file := value }
  | .address => .ok { o with address := value }
  | .bare => setSwitch value fun b => { o with bare := b }

end Flag

inductive FlagError where
  | unknown (name : Text)
  | malformed (argument : Text)
  | unknownLetter (letter : UInt8) (group : Text)
  | missingValue (flag : Flag)
  | missingLetterValue (letter : UInt8) (group : Text)
  | invalid (value : Text) (flag : Flag) (fault : ValueFault)
  deriving DecidableEq, Repr, Inhabited

/-- A letter in messages; a byte above ASCII is shown as the character that the
first byte of its encoding would be. -/
def shownLetter (letter : UInt8) : Text :=
  match String.utf8EncodeChar (Char.ofNat letter.toNat) with
  | [] => []
  | b :: _ => Text.quotedChar (Char.ofNat b.toNat)

def FlagError.message : FlagError → Text
  | .unknown name => utf8 "unknown flag: --" ++ name
  | .malformed argument => utf8 "bad flag syntax: " ++ argument
  | .unknownLetter letter group =>
    utf8 "unknown shorthand flag: " ++ shownLetter letter ++ utf8 " in -" ++ group
  | .missingValue flag => utf8 ("flag needs an argument: --" ++ flag.name)
  | .missingLetterValue letter group =>
    utf8 "flag needs an argument: " ++ shownLetter letter ++ utf8 " in -" ++ group
  | .invalid value flag fault =>
    utf8 "invalid argument " ++ value.quoted ++ utf8 " for " ++ flag.display.quoted ++
      utf8 " flag: " ++ fault.message value

namespace Flag

def assign (f : Flag) (value : Text) (o : Options) : Except FlagError Options :=
  match f.set value o with
  | .ok o => .ok o
  | .error fault => .error (.invalid value f fault)

def readNamed (known : List Flag) (o : Options) (next : Option Text) (t : Text) :
    Except FlagError (Options × Bool) :=
  if t.head?.all fun b => b = 45 || b = 61 then .error (.malformed (45 :: 45 :: t))
  else
    let (name, given) := Text.cut 61 t
    match known.find? fun f => utf8 f.name == name with
    | none => .error (.unknown name)
    | some f =>
      match given, f.implied?, next with
      | some value, _, _ => (f.assign value o).map fun o => (o, false)
      | none, some value, _ => (f.assign value o).map fun o => (o, false)
      | none, none, some value => (f.assign value o).map fun o => (o, true)
      | none, none, none => .error (.missingValue f)

/-- What a group of letters begins with that is passed over. -/
def reservedGroup : Text := utf8 "test."

/-- Reads the letters of a group; tells whether the next argument was the value
of the last one.  A letter whose value is implied leaves the rest of the group
to further letters, any other letter takes the rest as its value. -/
def readLetters (known : List Flag) (o : Options) (next : Option Text) :
    Text → Except FlagError (Options × Bool)
  | [] => .ok (o, false)
  | c :: rest =>
    if reservedGroup.isPrefixOf (c :: rest) then .ok (o, false)
    else
      match known.find? fun f => f.letter? == some c with
      | none => .error (.unknownLetter c (c :: rest))
      | some f =>
        if rest.head? = some 61 && 1 < rest.length then
          (f.assign (rest.drop 1) o).map fun o => (o, false)
        else
          match f.implied? with
          | some value =>
            match f.assign value o with
            | .ok o => readLetters known o next rest
            | .error e => .error e
          | none =>
            if !rest.isEmpty then (f.assign rest o).map fun o => (o, false)
            else
              match next with
              | some value => (f.assign value o).map fun o => (o, true)
              | none => .error (.missingLetterValue c [c])

def readAll (known : List Flag) (o : Options) (left : Array Text) :
    List Text → Except FlagError (Options × List Text)
  | [] => .ok (o, left.toList)
  | argument :: rest =>
    match argument with
    | 45 :: b :: more =>
      if b = 45 && more.isEmpty then .ok (o, left.toList ++ rest)
      else
        match if b = 45 then readNamed known o rest.head? more
            else readLetters known o rest.head? (b :: more) with
        | .error e => .error e
        | .ok (o, false) => readAll known o left rest
        | .ok (o, true) =>
          match rest with
          | [] => .ok (o, left.toList)
          | _ :: behind => readAll known o left behind
    | _ => readAll known o (left.push argument) rest

end Flag
end Reckoner.Command
