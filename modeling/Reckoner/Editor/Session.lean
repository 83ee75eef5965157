import Reckoner.Editor.Message
import Reckoner.Editor.Position
import Reckoner.FileUri
import Reckoner.Workspace

/-! # An editing session

A session holds a workspace and answers one message at a time.  Before it is
initialized, and again after it is shut down, it refuses every call but
`initialize`.  Messages that bring new content publish the diagnostics of the
file they name; closing a document publishes none. -/
set_option autoImplicit false
namespace Reckoner.Editor

structure Session where
  version : Text
  live : Bool := false
  workspace : Workspace := { root := Path.dot }
  deriving Repr, Inhabited

structure Publication where
  uri : Text
  diagnostics : List EditorDiagnostic
  deriving DecidableEq, Repr, Inhabited

inductive Answer where
  | nothing
  | welcome (version : Text)
  | hover (text : Text)
  deriving DecidableEq, Repr, Inhabited

structure Reply where
  published : List Publication := []
  answer : Answer := .nothing
  deriving DecidableEq, Repr, Inhabited

def rootOf (rootPath rootUri : Text) : Text :=
  if !rootPath.isEmpty then rootPath
  else if !rootUri.isEmpty then (FileUri.toPath rootUri).getD Path.dot
  else Path.dot

namespace Session

def accept (s : Session) (uri path content : Text) : Session × Reply :=
  let report := (SourceFile.ofContent path content).report
  ({ s with workspace := s.workspace.update path content },
    { published := [⟨uri, diagnosticsOf report⟩] })

/-- Content that a saved document has: what the message says, else what is on
disk, if it can be read. -/
def savedContent? (disk : Disk) (path : Text) (text : Option Text) : Option Text :=
  match text with
  | some t => some t
  | none => (disk.read path).toOption

def handle (disk : Disk) (s : Session) : Message → Session × Reply
  | .start rootPath rootUri =>
    ({ s with live := true, workspace := { root := rootOf rootPath rootUri } },
      { answer := .welcome s.version })
  | .initialized => ({ s with workspace := (Workspace.scanAll disk none s.workspace).1 }, {})
  | .shutdown => ({ s with live := false }, {})
  | .setTrace => (s, {})
  | .didOpen uri text =>
    match FileUri.toPath uri with
    | some path => s.accept uri path text
    | none => (s, {})
  | .didChange uri changes =>
    match FileUri.toPath uri, changes.getLast? with
    | some path, some (.whole text) => s.accept uri path text
    | _, _ => (s, {})
  | .didClose uri => (s, { published := [⟨uri, []⟩] })
  | .didSave uri text =>
    match FileUri.toPath uri with
    | none => (s, {})
    | some path =>
      match savedContent? disk path text with
      | some content => s.accept uri path content
      | none => (s, {})
  | .hover uri =>
    match (FileUri.toPath uri).bind s.workspace.get? with
    | some f => (s, { answer := .hover (hoverText f.report) })
    | none => (s, {})

/-- Answers a call, or refuses it and changes nothing. -/
def call (disk : Disk) (s : Session) (method : Text) (params : Option Json) :
    Except Refusal (Session × Reply) :=
  if !s.live && method != utf8 "initialize" then .error .notInitialized
  else (Message.ofCall method params).map (s.handle disk)

end Session
end Reckoner.Editor
