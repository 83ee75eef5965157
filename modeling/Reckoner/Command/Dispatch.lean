import Reckoner.Command.Flag
import Reckoner.Text.Lowercase

/-! # Finding the command

The first argument that is not a flag, nor the value of one, names the command;
it is taken out and the rest is read by the command, or in the same way by the
command that the next name selects.  Before the command is known, every flag
that is not known to imply its value is taken to have the next argument as its
value. -/
set_option autoImplicit false
namespace Reckoner

inductive Shell where
  | bash | zsh | fish | powershell
  deriving DecidableEq, Repr, Inhabited

namespace Shell

def name : Shell → String
  | .bash => "bash"
  | .zsh => "zsh"
  | .fish => "fish"
  | .powershell => "powershell"

def ofName? (name : Text) : Option Shell :=
  [bash, zsh, fish, powershell].find? fun s => utf8 s.name == name

end Shell

inductive Command where
  | root
  | run | tokens | examples | check | editor | server | help | completion
  | script (shell : Shell)
  /-- The question of such a script how a command line can go on; its arguments
  are that command line. -/
  | complete
  deriving DecidableEq, Repr, Inhabited

namespace Command

def programName : String := "arith"

def name : Command → String
  | .root => programName
  | .run => "run"
  | .tokens => "tokens"
  | .examples => "examples"
  | .check => "check"
  | .editor => "lsp"
  | .server => "ui"
  | .help => "help"
  | .completion => "completion"
  | .script shell => "completion " ++ shell.name
  | .complete => "__complete"

def suggested : List Command := [.run, .tokens, .examples, .check, .editor, .server, .completion]

def completeBriefly : Text := utf8 "__completeNoDesc"

def ofName? (name : Text) : Option Command :=
  if name = completeBriefly then some .complete
  else (.help :: .complete :: suggested).find? fun c => utf8 c.name == name

/-- The flags that a command knows; `complete` leaves them to others. -/
def flags : Command → List Flag
  | .root => [.help, .version, .verbose]
  | .run => [.help, .verbose, .format, .file, .color]
  | .check => [.help, .verbose, .timeout, .workers, .format, .color]
  | .server => [.help, .verbose, .address]
  | .script _ => [.help, .verbose, .bare]
  | _ => [.help, .verbose]

def takesNext (argument : Text) : Bool :=
  !argument.contains 61 &&
    match argument with
    | 45 :: 45 :: name => name != utf8 Flag.verbose.name
    | [45, letter] => Flag.verbose.letter? != some letter
    | _ => false

def endOfFlags : Text := [45, 45]

/-- The arguments that are neither flags nor values of flags.  When a flag
that takes the next argument leaves nothing behind it, the search ends. -/
def positionals : List Text → List Text
  | [] => []
  | a :: rest =>
    if a = endOfFlags then []
    else if takesNext a then
      match rest with
      | _ :: b :: more => positionals (b :: more)
      | _ => []
    else if a.isEmpty || a.head? = some 45 then positionals rest
    else a :: positionals rest

def without (name : Text) : List Text → List Text
  | [] => []
  | a :: rest =>
    if a = endOfFlags then a :: rest
    else if takesNext a then
      match rest with
      | [] => [a]
      | value :: more => a :: value :: without name more
    else if a = name then rest
    else a :: without name rest

def findScript (arguments : List Text) : Command × List Text :=
  match positionals arguments with
  | [] => (.completion, arguments)
  | name :: _ =>
    match Shell.ofName? name with
    | some shell => (.script shell, without name arguments)
    | none => (.completion, arguments)

/-- The command that arguments name, and the arguments it is given; the name
itself if there is no such command. -/
def find (arguments : List Text) : Except Text (Command × List Text) :=
  match positionals arguments with
  | [] => .ok (.root, arguments)
  | name :: _ =>
    match ofName? name with
    | some .completion => .ok (findScript (without name arguments))
    | some c => .ok (c, without name arguments)
    | none => .error name

/-- The next row of a table of edit distances: `left` is its last entry so far,
and the entries of the row above start with the one diagonally before. -/
def nextRow (c : UInt8) (left : Nat) : Text → List Nat → List Nat
  | d :: t, diagonal :: above :: more =>
    let entry := if c = d then diagonal else 1 + min left (min above diagonal)
    entry :: nextRow c entry t (above :: more)
  | _, _ => []

def editDistance (s t : Text) : Nat :=
  let row (above : List Nat) (c : UInt8) : List Nat :=
    let left := above.headD 0 + 1
    left :: nextRow c left t above
  (s.foldl row (List.range (t.length + 1))).getLastD 0

/-- Whether a name is close enough to that of a command to be a slip, or
begins it; case does not matter. -/
def resembles (name : Text) (c : Command) : Bool :=
  editDistance name.lowercase (utf8 c.name) ≤ 2 || name.lowercase.isPrefixOf (utf8 c.name)

def suggestions (name : Text) : Text :=
  match suggested.filter (resembles name) with
  | [] => []
  | cs => utf8 "\n\nDid you mean this?\n" ++ cs.flatMap fun c => 9 :: utf8 c.name ++ [10]

end Command
end Reckoner
