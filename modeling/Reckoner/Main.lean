import Reckoner.Command.Execution
import Reckoner.Editor.Wire
import Reckoner.Json.Reader
import Reckoner.Json.Writer

/-! # The program

Reads what a command needs from the file system, executes it and prints what it
wrote; a conversation with an editor goes over standard input and output.  All
decisions are made by `Command.execute` and `Editor.Session.frame`.

The disk that they are given holds what the paths lead to, in its place below the
root, and all that is below the last directory of a path.  Left out are files that
cannot be read, directories that cannot be listed, and what is neither file,
directory nor link.  The text of a link cannot be read here: it is kept as a link
to where it leads in the end. -/
set_option autoImplicit false
namespace Reckoner.Program

def ofBytes (b : ByteArray) : Text := b.data.toList

def toBytes (t : Text) : ByteArray := ⟨t.toArray⟩

def ofString (s : String) : Text := ofBytes s.toUTF8

/-- A path for the file system; one that is not valid UTF-8 names nothing. -/
def toString? (t : Text) : Option String := String.fromUTF8? (toBytes t)

/-- A value that may not be there. -/
def attempt {α : Type} (read : IO α) : IO (Option α) :=
  try return some (← read)
  catch _ => return none

/-- Where a link leads that leads nowhere. -/
def nowhere : Text := utf8 "/missing"

/-- Adds what stands at a path, and if that is wanted all that is below it. -/
partial def load (below : Bool) (disk : Disk) (path : String) : IO Disk := do
  let place := (← IO.currentDir) / path
  let some found ← attempt place.symlinkMetadata | return disk
  match found.type, ← attempt (IO.FS.realPath place) with
  | .dir, some real =>
    let mut disk := disk.makeDir (ofString real.toString)
    if below then
      for entry in (← attempt place.readDir).getD #[] do
        disk ← load true disk (path ++ "/" ++ entry.fileName)
    return disk
  | .file, some real =>
    let some content ← attempt (IO.FS.readBinFile place) | return disk
    return disk.write (ofString real.toString) (ofBytes content)
  | .symlink, target =>
    let (some above, some name) := (place.parent, place.fileName) | return disk
    let some directory ← attempt (IO.FS.realPath above) | return disk
    let link := ofString (directory / name).toString
    match target with
    | some real => load false (disk.makeLink link (ofString real.toString)) real.toString
    | none => return disk.makeLink link nowhere
  | _, _ => return disk

/-- The disk that holds what is found at paths and on the way to them. -/
def snapshot (paths : List Text) : IO Disk := do
  let here := ofString (← IO.currentDir).toString
  let empty : Disk := { entries := [], working := Path.cleanElements here }
  let mut disk := empty.makeDir here
  for path in paths do
    for beginning in (Path.beginnings path).filterMap toString? do
      disk ← load false disk beginning
    if let some path := toString? path then
      disk ← load true disk path
  return disk

/-- A check is taken to look at its first file a microsecond after it began. -/
def startUp : Int := 1000

/-- Exactly so many bytes, unless the input ends before. -/
partial def readExactly (input : IO.FS.Stream) (count : Nat) (done : ByteArray) : IO ByteArray := do
  if count ≤ done.size then return done
  let more ← input.read (USize.ofNat (count - done.size))
  if more.isEmpty then return done else readExactly input count (done ++ more)

partial def readLength (input : IO.FS.Stream) (length : Nat) : IO (Option Nat) := do
  let line := ofString (← input.getLine)
  if line.isEmpty then return none
  let content := line.filter fun b => b != 13 && b != 10
  if content.isEmpty then return some length
  match Text.cut 58 content with
  | (name, some value) =>
    if Text.lowerAscii name = utf8 "content-length" then
      readLength input (Text.toNat (value.filter Text.isDigit))
    else readLength input length
  | _ => readLength input length

def writeFrame (output : IO.FS.Stream) (j : Json) : IO Unit := do
  let body := j.compact
  let header := utf8 "Content-Length: " ++ Text.ofNat body.length ++ utf8 "\r\n\r\n"
  output.write (toBytes (header ++ body))
  output.flush

partial def converse (input output : IO.FS.Stream) (s : Editor.Session) : IO Unit := do
  let some length ← readLength input 0 | return
  let some j := Json.first? (ofBytes (← readExactly input length .empty)) | return
  let some (s, sent) := s.frame (← snapshot (s.pathsRead j)) j | return
  sent.forM (writeFrame output)
  converse input output s

end Reckoner.Program

open Reckoner in
def main (arguments : List String) : IO UInt32 := do
  let arguments := arguments.map Program.ofString
  let output ← IO.getStdout
  let disk ← Program.snapshot (Command.pathsRead arguments)
  let (ending, sink) := Command.execute Program.startUp disk {} arguments
  output.write (Program.toBytes sink.output)
  output.flush
  match ending with
  | .done => return 0
  | .failed complaint =>
    (← IO.getStderr).write (Program.toBytes (utf8 "Error: " ++ complaint.message ++ [10]))
    return 1
  | .help command =>
    output.write (Program.toBytes (utf8 ("Commands: " ++
      ", ".intercalate (Command.suggested.map Command.name) ++
      "\nFlags of " ++ command.name ++ ": " ++
      ", ".intercalate (command.flags.map fun f => "--" ++ f.name) ++ "\n")))
    return 0
  | .edit =>
    Program.converse (← IO.getStdin) output { version := Command.version }
    return 0
  | .serve _ =>
    (← IO.getStderr).write (Program.toBytes (utf8 "Error: there is no network to listen on\n"))
    return 1
  | .script _ _ | .complete _ =>
    (← IO.getStderr).write (Program.toBytes (utf8 "Error: there are no completions to offer\n"))
    return 1
