import Reckoner.Disk
import Reckoner.Report

/-! # A workspace of source files

A workspace remembers the compiled state of files by their path, in byte order
of the paths.  It is filled by hand or by scanning a disk: a single file, or
every source below the root.  The files of a scan are independent tasks; each
stores its file or fails with one error and changes nothing. -/
set_option autoImplicit false
namespace Reckoner

def sourceExtension : Text := utf8 ".arith"

structure SourceFile where
  path : Text
  content : Text
  report : Report
  deriving Repr, Inhabited

/-- A source file is compiled under the last element of its path. -/
def SourceFile.ofContent (path content : Text) : SourceFile :=
  ⟨path, content, compileFile (Path.base path) content⟩

inductive Interruption where
  | canceled
  | expired
  deriving DecidableEq, Repr, Inhabited

def Interruption.message : Interruption → String
  | .canceled => "context canceled"
  | .expired => "context deadline exceeded"

inductive ScanError where
  | interrupted (path : Text) (cause : Interruption)
  | unreadable (path : Text) (cause : FileError)
  deriving DecidableEq, Repr, Inhabited

def ScanError.message : ScanError → Text
  | .interrupted path cause => utf8 "scan " ++ path ++ utf8 ": " ++ utf8 cause.message
  | .unreadable path cause => utf8 "read " ++ path ++ utf8 ": " ++ cause.message

inductive ScanFailure where
  | root (path : Text) (cause : FileError)
  | files (errors : List ScanError)
  deriving DecidableEq, Repr, Inhabited

structure Workspace where
  root : Text
  files : List SourceFile := []
  deriving Repr, Inhabited

namespace Workspace

def store (f : SourceFile) : List SourceFile → List SourceFile
  | [] => [f]
  | g :: rest =>
    if f.path = g.path then f :: rest
    else if Text.before f.path g.path then f :: g :: rest
    else g :: store f rest

def update (w : Workspace) (path content : Text) : Workspace :=
  { w with files := store (.ofContent path content) w.files }

def remove (w : Workspace) (path : Text) : Workspace :=
  { w with files := w.files.filter fun f => f.path != path }

def get? (w : Workspace) (path : Text) : Option SourceFile := w.files.find? fun f => f.path == path

def paths (w : Workspace) : List Text := w.files.map SourceFile.path

def scanFile (disk : Disk) (interrupted : Option Interruption) (w : Workspace) (path : Text) :
    Except ScanError Workspace :=
  match interrupted with
  | some cause => .error (.interrupted path cause)
  | none =>
    match disk.read path with
    | .ok content => .ok (w.update path content)
    | .error cause => .error (.unreadable path cause)

/-- The sources that a scan visits: the root itself unless it is a directory,
else what is below it by its extension. -/
def sources (disk : Disk) (root : Text) : Except FileError (List Text) :=
  match disk.stat root with
  | .error cause => .error cause
  | .ok (.dir _) =>
    .ok ((disk.walk (disk.root.size + 1) root).filter fun p => Path.extension p = sourceExtension)
  | .ok _ => .ok [root]

abbrev Task := Text × Option Interruption

/-- Runs tasks in the given order; collects the errors in that order. -/
def runTasks (disk : Disk) (w : Workspace) : List Task → Workspace × List ScanError
  | [] => (w, [])
  | (path, interrupted) :: rest =>
    match scanFile disk interrupted w path with
    | .ok w => runTasks disk w rest
    | .error e =>
      let (w, errors) := runTasks disk w rest
      (w, e :: errors)

def scanAll (disk : Disk) (interrupted : Option Interruption) (w : Workspace) :
    Workspace × Option ScanFailure :=
  match sources disk w.root with
  | .error cause => (w, some (.root w.root cause))
  | .ok paths =>
    match runTasks disk w (paths.map fun p => (p, interrupted)) with
    | (w, []) => (w, none)
    | (w, errors) => (w, some (.files errors))

end Workspace

def rootMessage (path : Text) (cause : FileError) : Text :=
  utf8 "stat " ++ path ++ utf8 ": " ++ cause.message

end Reckoner
