import Reckoner.Command.Address
import Reckoner.Command.Dispatch
import Reckoner.Report.Encoder
import Reckoner.Workspace

/-! # Executing commands

A command reads a disk, writes to a sink and ends in one of a few ways.  Flags
are read first, then help and version are looked at, then the number of
arguments, and only then does the command do its work. -/
set_option autoImplicit false
namespace Reckoner.Command

def version : Text := utf8 "0.1.0"

inductive Complaint where
  | unknownCommand (name : Text)
  | flag (e : FlagError)
  | unexpectedArgument (command : Command) (argument : Text)
  | tooFewArguments
  | oneArgument (received : Nat)
  | unknownFormat (name : Text)
  | unreadable (file : Text) (cause : FileError)
  | nothingGiven
  /-- A report could not be written, that of a file if there is one. -/
  | unwritten (file : Option Text)
  | examplesUnwritten
  | versionUnwritten
  | scan (path : Text) (failure : ScanFailure)
  | address (place : Text) (fault : AddressFault)
  | notOk
  deriving DecidableEq, Repr, Inhabited

def scanHeading (path : Text) : Text := utf8 "check " ++ path ++ utf8 ": "

def scanMessage : ScanFailure → Text
  | .root path cause => rootMessage path cause
  | .files errors =>
    Text.ofNat errors.length ++ utf8 (if errors.length = 1 then " error" else " errors") ++
      utf8 " occurred:\n" ++ errors.flatMap (fun e => utf8 "\t* " ++ e.message ++ [10]) ++ [10]

def Complaint.message : Complaint → Text
  | .unknownCommand name =>
    utf8 "unknown command " ++ name.quoted ++ utf8 (" for \"" ++ programName ++ "\"") ++
      suggestions name
  | .flag e => e.message
  | .unexpectedArgument command argument =>
    utf8 "unknown command " ++ argument.quoted ++
      utf8 (" for \"" ++ programName ++ " " ++ command.name ++ "\"")
  | .tooFewArguments => utf8 "requires at least 1 arg(s), only received 0"
  | .oneArgument received => utf8 "accepts 1 arg(s), received " ++ Text.ofNat received
  | .unknownFormat name => Format.unknownMessage name
  | .unreadable file cause => utf8 "read " ++ file ++ utf8 ": " ++ cause.message
  | .nothingGiven => utf8 "no expression given"
  | .unwritten none => utf8 "encode: " ++ Sink.fullMessage
  | .unwritten (some file) => utf8 "encode " ++ file ++ utf8 ": " ++ Sink.fullMessage
  | .examplesUnwritten => writeFailedMessage
  | .versionUnwritten => Sink.fullMessage
  | .scan path failure => scanHeading path ++ scanMessage failure
  | .address place fault => fault.message place
  | .notOk => utf8 "one or more expressions did not evaluate"

inductive Ending where
  | done
  | failed (c : Complaint)
  | help (c : Command)
  | edit
  | serve (address : Text)
  | script (shell : Shell) (bare : Bool)
  | complete (arguments : List Text)
  deriving DecidableEq, Repr, Inhabited

/-- Encodes the reports of items in order, up to a failed write; gives the item
whose report that was. -/
def encodeEach {α : Type} (report : α → Report) (e : Encoder) (s : Sink) :
    List α → Option α × Sink
  | [] => (none, s)
  | a :: rest =>
    match e.encode (report a) s with
    | (true, e, s) => encodeEach report e s rest
    | (false, _, s) => (some a, s)

/-- The reports that `run` is about: that of the named file comes first. -/
def runReports (disk : Disk) (o : Options) (sources : List Text) : Except Complaint (List Report) :=
  let given := sources.map compile
  if o.file.isEmpty then if given.isEmpty then .error .nothingGiven else .ok given
  else
    match disk.read o.file with
    | .error cause => .error (.unreadable o.file cause)
    | .ok content => .ok (compileFile o.file content :: given)

def encodeReports (e : Encoder) (s : Sink) (reports : List Report) : Ending × Sink :=
  match encodeEach id e s reports with
  | (some _, s) => (.failed (.unwritten none), s)
  | (none, s) => (if reports.all Report.ok then .done else .failed .notOk, s)

def runSources (disk : Disk) (o : Options) (s : Sink) (sources : List Text) : Ending × Sink :=
  match Format.ofName? o.format with
  | none => (.failed (.unknownFormat o.format), s)
  | some format =>
    match runReports disk o sources with
    | .error c => (.failed c, s)
    | .ok reports => encodeReports { format := format, colored := o.colored } s reports

def listTokens (s : Sink) (arguments : List Text) : Sink :=
  let scanned := scan [] (Text.join [32] arguments)
  s.pour ((scanned.diagnostics.map fun d => d.text ++ [10]) ++
    [Token.listing scanned.tokens ++ [10]])

def summary (files failed : Nat) : List Text :=
  [utf8 "\n=== CHECK COMPLETE ===\n", utf8 "Files: " ++ Text.ofNat files ++ [10],
    utf8 "Failed: " ++ Text.ofNat failed ++ [10]]

def verdict (path : Text) (failure : Option ScanFailure) (failed : Nat) : Ending :=
  match failure with
  | some f => .failed (.scan path f)
  | none => if failed = 0 then .done else .failed .notOk

def reportScan (format : Format) (colored : Bool) (path : Text) (s : Sink) (w : Workspace)
    (failure : Option ScanFailure) : Ending × Sink :=
  match encodeEach SourceFile.report { format := format, colored := colored } s w.files with
  | (some f, s) => (.failed (.unwritten (some f.path)), s)
  | (none, s) =>
    let failed := w.files.countP fun f => !f.report.ok
    let s := if format = .text then s.pour (summary w.files.length failed) else s
    (verdict path failure failed, s)

/-- Evaluates every source below a path.  The timeout has run out, if it is below the
delay, the nanoseconds that pass before the first file is looked at. -/
def checkPath (delay : Int) (disk : Disk) (o : Options) (s : Sink) (path : Text) :
    Ending × Sink :=
  match Format.ofName? o.format with
  | none => (.failed (.unknownFormat o.format), s)
  | some format =>
    let interrupted := if o.timeout < delay then some Interruption.expired else none
    let (w, failure) := Workspace.scanAll disk interrupted { root := path }
    reportScan format o.colored path s w failure

def serveAt (o : Options) (s : Sink) : Ending × Sink :=
  let s := s.pour [utf8 "Listening on http://" ++ o.address ++ [10]]
  match Address.fault? o.address with
  | some fault => (.failed (.address o.address fault), s)
  | none => (.serve o.address, s)

/-- Writes the version; a failed write is mentioned in its place. -/
def showVersion (s : Sink) : Ending × Sink :=
  match s.write (utf8 (programName ++ " version ") ++ version ++ [10]) with
  | (true, s) => (.done, s)
  | (false, s) => (.failed .versionUnwritten, s.pour [Sink.fullMessage ++ [10]])

def work (delay : Int) (disk : Disk) (o : Options) (s : Sink) (c : Command)
    (arguments : List Text) : Ending × Sink :=
  match c with
  | .root | .help | .completion => (.help c, s)
  | .run => runSources disk o s arguments
  | .tokens =>
    if arguments.isEmpty then (.failed .tooFewArguments, s) else (.done, listTokens s arguments)
  | .examples =>
    match arguments with
    | a :: _ => (.failed (.unexpectedArgument c a), s)
    | [] =>
      match writeExamples s with
      | (true, _, s) => (.done, s)
      | (false, _, s) => (.failed .examplesUnwritten, s)
  | .check =>
    match arguments with
    | [path] => checkPath delay disk o s path
    | _ => (.failed (.oneArgument arguments.length), s)
  | .editor => (.edit, s)
  | .server => serveAt o s
  | .script shell =>
    match arguments with
    | a :: _ => (.failed (.unexpectedArgument c a), s)
    | [] => (.script shell o.bare, s)
  | .complete =>
    if arguments.isEmpty then (.failed .tooFewArguments, s) else (.complete arguments, s)

def execute (delay : Int) (disk : Disk) (s : Sink) (arguments : List Text) : Ending × Sink :=
  match find arguments with
  | .error name => (.failed (.unknownCommand name), s)
  | .ok (.complete, arguments) => work delay disk {} s .complete arguments
  | .ok (c, arguments) =>
    match Flag.readAll c.flags {} #[] arguments with
    | .error e => (.failed (.flag e), s)
    | .ok (o, arguments) =>
      if o.help then (.help c, s)
      else if o.version then showVersion s
      else work delay disk o s c arguments

def pathsRead (arguments : List Text) : List Text :=
  match find arguments with
  | .error _ => []
  | .ok (c, arguments) =>
    match c, Flag.readAll c.flags {} #[] arguments with
    | .check, .ok (_, [path]) => [path]
    | .run, .ok (o, _) => if o.file.isEmpty then [] else [o.file]
    | _, _ => []

end Reckoner.Command
