import Reckoner.Editor.Capability

/-! # Messages from an editor

A call names a method and brings parameters.  Parameters are checked against
the shape that the method asks for before anything is taken from them.  What is
missing is empty. -/
set_option autoImplicit false
namespace Reckoner.Editor

namespace Shape

def position : Shape := .record [("line", uint32), ("character", uint32)]

def document : Shape := .record [("uri", .string)]

def progressToken : Shape := .either int32 .string

def root : Shape :=
  .record [("workDoneToken", progressToken), ("processId", int32),
    ("clientInfo", .record [("name", .string), ("version", .string)]), ("locale", .string),
    ("rootPath", .string), ("rootUri", .string), ("initializationOptions", .any),
    ("capabilities", Capability.client), ("trace", .string),
    ("workspaceFolders", .list (.record [("uri", .string), ("name", .string)]))]

def opened : Shape :=
  .record [("textDocument", .record [("uri", .string), ("languageId", .string), ("version", int32),
    ("text", .string)])]

def change : Shape :=
  .record [("range", .record [("start", position), ("end", position)]), ("rangeLength", uint32),
    ("text", .string)]

def changed : Shape :=
  .record [("textDocument", .record [("uri", .string), ("version", int32)]),
    ("contentChanges", .list .raw)]

def closed : Shape := .record [("textDocument", document)]

def saved : Shape := .record [("textDocument", document), ("text", .string)]

def hovered : Shape :=
  .record [("textDocument", document), ("position", position), ("workDoneToken", progressToken)]

end Shape

inductive Change where
  | whole (text : Text)
  | ranged
  deriving DecidableEq, Repr, Inhabited

inductive Message where
  | start (rootPath rootUri : Text)
  | initialized
  | shutdown
  | setTrace
  | didOpen (uri text : Text)
  | didChange (uri : Text) (changes : List Change)
  | didClose (uri : Text)
  | didSave (uri : Text) (text : Option Text)
  | hover (uri : Text)
  deriving DecidableEq, Repr, Inhabited

inductive Refusal where
  | notInitialized
  | unknownMethod (method : Text)
  | invalidParameters
  deriving DecidableEq, Repr, Inhabited

/-- An edit without a range, or with a null one, is of the whole document. -/
def Change.ofJson (j : Json) : Change :=
  match j.lastMember? "range" with
  | some _ => .ranged
  | none => .whole ((j.memberText? "text").getD [])

/-- The edits that parameters bring; those of the last list count. -/
def changesOf (params : Json) : Except Refusal (List Change) :=
  match params.lastMember? "contentChanges" with
  | some (.array items) =>
    if items.all Shape.change.fits then .ok (items.map Change.ofJson) else .error .invalidParameters
  | _ => .ok []

def documentText (name : String) (params : Json) : Text :=
  ((params.merged "textDocument").memberText? name).getD []

def documentUri (params : Json) : Text := documentText "uri" params

def checked (shape : Shape) (params : Option Json) : Except Refusal Json :=
  match params with
  | some j => if shape.fits j then .ok j else .error .invalidParameters
  | none => .error .invalidParameters

namespace Message

def ofCall (method : Text) (params : Option Json) : Except Refusal Message :=
  if method = utf8 "initialize" then
    (checked Shape.root params).map fun j =>
      .start ((j.lastText? "rootPath").getD []) ((j.lastText? "rootUri").getD [])
  else if method = utf8 "initialized" then (checked (.record []) params).map fun _ => .initialized
  else if method = utf8 "shutdown" then .ok .shutdown
  else if method = utf8 "$/setTrace" then
    (checked (.record [("value", .string)]) params).map fun _ => .setTrace
  else if method = utf8 "textDocument/didOpen" then
    (checked Shape.opened params).map fun j => .didOpen (documentUri j) (documentText "text" j)
  else if method = utf8 "textDocument/didChange" then
    match checked Shape.changed params with
    | .error refusal => .error refusal
    | .ok j => (changesOf j).map fun changes => .didChange (documentUri j) changes
  else if method = utf8 "textDocument/didClose" then
    (checked Shape.closed params).map fun j => .didClose (documentUri j)
  else if method = utf8 "textDocument/didSave" then
    (checked Shape.saved params).map fun j => .didSave (documentUri j) (j.lastText? "text")
  else if method = utf8 "textDocument/hover" then
    (checked Shape.hovered params).map fun j => .hover (documentUri j)
  else .error (.unknownMethod method)

end Message
end Reckoner.Editor
