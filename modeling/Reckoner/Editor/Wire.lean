import Reckoner.Editor.Session

/-! # Replies on the wire

The JSON of what a session sends, and a session driven by JSON-RPC frames.  A
frame is a call if it has a method, a response if it has a result or an error,
and malformed if it is both or neither.  A call with an identifier gets a
response; one without is a notification and gets none.  `exit`, and a malformed
frame, end the conversation. -/
set_option autoImplicit false
namespace Reckoner.Editor

def object (members : List (String × Json)) : Json :=
  .object (members.map fun (name, j) => (utf8 name, j))

def EditorPosition.json (p : EditorPosition) : Json :=
  object [("line", .ofInt p.line.toNat), ("character", .ofInt p.character.toNat)]

def EditorRange.json (r : EditorRange) : Json :=
  object [("start", r.start.json), ("end", r.stop.json)]

def serverName : String := "arith"

def EditorDiagnostic.json (d : EditorDiagnostic) : Json :=
  object [("range", d.range.json), ("severity", .ofInt d.severity.code),
    ("source", .word serverName), ("message", .string d.message)]

def publishMethod : String := "textDocument/publishDiagnostics"

def Publication.json (p : Publication) : Json :=
  object [("uri", .string p.uri), ("diagnostics", .array (p.diagnostics.map EditorDiagnostic.json))]

/-- Documents are synchronized as a whole, and saving brings their text. -/
def capabilities : Json :=
  object [("textDocumentSync", object [("openClose", .bool true), ("change", .ofInt 1),
      ("save", object [("includeText", .bool true)])]),
    ("hoverProvider", .bool true)]

def Answer.json : Answer → Json
  | .nothing => .null
  | .welcome version =>
    object [("capabilities", capabilities),
      ("serverInfo", object [("name", .word serverName), ("version", .string version)])]
  | .hover text =>
    object [("contents", object [("kind", .word "plaintext"), ("value", .string text)])]

namespace Refusal

def code : Refusal → Int
  | .notInitialized => -32600
  | .unknownMethod _ => -32601
  | .invalidParameters => -32602

def message : Refusal → Text
  | .notInitialized => utf8 "server not initialized"
  | .unknownMethod method => utf8 "method not supported: " ++ method
  | .invalidParameters => utf8 "invalid parameters"

end Refusal

inductive Frame where
  | call (id : Option Json) (method : Text) (params : Option Json)
  | response
  | malformed
  deriving Repr, Inhabited

/-- The identifier of a frame: a text, or a number taken in 64 bits; `none` if
it can be no identifier. -/
def identifier? : Option Json → Option (Option Json)
  | none | some .null => some none
  | some (.string t) => some (some (.string t))
  | some (.number literal) =>
    match Json.integer? literal with
    | some n =>
      if -(Nat.pow 2 63 : Int) ≤ n ∧ n < Nat.pow 2 63 then some (some (.ofInt (n % Nat.pow 2 64)))
      else none
    | none => none
  | some _ => none

def exactMember? (name : String) : Json → Option Json
  | .object members => (members.reverse.find? fun m => m.1 == utf8 name).map Prod.snd
  | _ => none

def setMember (name : Text) (value : Json) : List (Text × Json) → List (Text × Json)
  | [] => [(name, value)]
  | (other, v) :: rest =>
    if name = other then (name, value) :: rest
    else if Text.before name other then (name, value) :: (other, v) :: rest
    else (other, v) :: setMember name value rest

mutual
/-- The value with the members of each object in the order of their names, and
only the last of those that are named alike. -/
def arranged : Json → Json
  | .array items => .array (arrangedItems #[] items).toList
  | .object members => .object (arrangedMembers [] members)
  | j => j

def arrangedItems (done : Array Json) : List Json → Array Json
  | [] => done
  | j :: rest => arrangedItems (done.push (arranged j)) rest

def arrangedMembers (done : List (Text × Json)) : List (Text × Json) → List (Text × Json)
  | [] => done
  | (name, j) :: rest => arrangedMembers (setMember name (arranged j) done) rest
end

namespace Frame

def shape : Shape :=
  .record [("id", .any), ("method", .string), ("result", .any), ("error", .any)]

def errorShape : Shape := .record [("code", .int64), ("message", .string)]

def responseShape : Shape :=
  .record [("id", .either .uint64 .string), ("error", errorShape)]

def callOf (j : Json) : Frame :=
  match exactMember? "method" j, identifier? (exactMember? "id" j) with
  | some (.string method), some id => .call id method ((exactMember? "params" j).map arranged)
  | _, _ => .malformed

def ofJson (j : Json) : Frame :=
  let isCall := (j.lastMember? "method").isSome
  let isResponse := !(j.membersNamed "result").isEmpty || (j.lastMember? "error").isSome
  if !shape.fits j || isCall == isResponse then .malformed
  else if isCall then callOf j
  else if responseShape.fits j then .response
  else .malformed

end Frame

def notificationFrame (p : Publication) : Json :=
  object [("jsonrpc", .word "2.0"), ("method", .word publishMethod), ("params", p.json)]

def responseFrame (id : Json) : Except Refusal Answer → Json
  | .ok answer => object [("id", id), ("result", answer.json), ("jsonrpc", .word "2.0")]
  | .error refusal =>
    object [("id", id),
      ("error", object [("code", .ofInt refusal.code), ("message", .string refusal.message)]),
      ("jsonrpc", .word "2.0")]

/-- What one frame makes a session send; `none` ends the conversation. -/
def Session.frame (disk : Disk) (s : Session) (j : Json) : Option (Session × List Json) :=
  match Frame.ofJson j with
  | .malformed => none
  | .response => some (s, [])
  | .call id method params =>
    if method = utf8 "exit" then none
    else
      let result := s.call disk method params
      let (s, published, answer) := match result with
        | .ok (s, reply) => (s, reply.published, Except.ok reply.answer)
        | .error refusal => (s, [], Except.error refusal)
      let response := match id with
        | some id => [responseFrame id answer]
        | none => []
      some (s, published.map notificationFrame ++ response)

/-- The paths that a session looks at when it takes a frame. -/
def Session.pathsRead (s : Session) (j : Json) : List Text :=
  match Frame.ofJson j with
  | .call _ method params =>
    match Message.ofCall method params with
    | .ok .initialized => [s.workspace.root]
    | .ok (.didSave uri none) => (FileUri.toPath uri).toList
    | _ => []
  | _ => []

def Session.converse (disk : Disk) (s : Session) : List Json → List Json
  | [] => []
  | j :: rest =>
    match s.frame disk j with
    | none => []
    | some (s, sent) => sent ++ s.converse disk rest

end Reckoner.Editor
