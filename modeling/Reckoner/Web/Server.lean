import Reckoner.Json.Reader
import Reckoner.Report.Encoder
import Reckoner.Web.Form
import Reckoner.Web.MediaType
import Reckoner.Web.Page
import Reckoner.Web.Target

/-! # The web server

The server is a function from requests to responses.  `POST /eval` answers with
the JSON document of a report, everything else that is asked with GET, HEAD or
POST with the page.  A source is sent as a form, or to `/eval` as a JSON object
too; what is sent is limited in size. -/
set_option autoImplicit false
namespace Reckoner.Web

structure Request where
  /-- The empty method is GET. -/
  method : Text
  target : Target
  headers : List (Text × Text) := []
  body : Text := []
  deriving Repr, Inhabited

structure Response where
  status : Nat
  contentType : Option Text := none
  allow : Option Text := none
  location : Option Text := none
  chunks : List Text := []
  deriving DecidableEq, Repr, Inhabited

inductive Rejection where
  | badJson
  | jsonTooLarge
  | badMediaType
  | badForm
  | formTooLarge
  deriving DecidableEq, Repr, Inhabited

def Rejection.message : Rejection → Text
  | .badJson => utf8 "invalid JSON: no object with a text as source"
  | .jsonTooLarge => utf8 "invalid JSON: too large"
  | .badMediaType => utf8 "invalid form data: malformed media type"
  | .badForm => utf8 "invalid form data: malformed field"
  | .formTooLarge => utf8 "invalid form data: too large"

namespace Request

def get : Text := utf8 "GET"

def post : Text := utf8 "POST"

/-- The value of the first header with a name, in any case of letters; empty if
there is none. -/
def header (r : Request) (name : String) : Text :=
  let found := r.headers.find? fun h => Text.lowerAscii h.1 == Text.lowerAscii (utf8 name)
  (found.map Prod.snd).getD []

def contentType (r : Request) : Text := r.header "Content-Type"

end Request

def bodyLimit : Nat := 65536

def formType : Text := utf8 "application/x-www-form-urlencoded"

def jsonType : Text := utf8 "application/json"

def sourceName : String := "source"

/-- The fields in the body of a request: none unless it is of the form type.
Without a type it counts as arbitrary bytes. -/
def bodyFields (r : Request) : Except Rejection (List Field) :=
  if r.contentType.isEmpty then .ok []
  else
    match mediaType? r.contentType with
    | none => .error .badMediaType
    | some type =>
      if type = formType then
        if bodyLimit < r.body.length then .error .formTooLarge
        else
          match Form.fields? r.body with
          | some fields => .ok fields
          | none => .error .badForm
      else .ok []

/-- The source in a form: fields of the body come before those of the query. -/
def formSource (r : Request) : Except Rejection Text :=
  match bodyFields r with
  | .error e => .error e
  | .ok inBody =>
    match Form.fields? r.target.query with
    | some inQuery => .ok (Form.first (utf8 sourceName) (inBody ++ inQuery))
    | none => .error .badForm

/-- The source in a JSON value: null has the empty one, and so has an object
that does not name it; no other type is accepted for it. -/
def sourceMember? (j : Json) : Option Text :=
  let proper : Json → Bool
    | .null | .string _ => true
    | _ => false
  match j with
  | .null => some []
  | .object _ =>
    if (j.membersNamed sourceName).all proper then some ((j.memberText? sourceName).getD [])
    else none
  | _ => none

/-- The source in a JSON body.  Only the first value matters, but it has to end
within the limit. -/
def jsonSource (r : Request) : Except Rejection Text :=
  match Json.first? (r.body.take bodyLimit) with
  | none => .error (if bodyLimit < r.body.length then .jsonTooLarge else .badJson)
  | some j =>
    match sourceMember? j with
    | some source => .ok source
    | none => .error .badJson

namespace Response

def html : Text := utf8 "text/html; charset=utf-8"

def plain : Text := utf8 "text/plain; charset=utf-8"

def page (source : Text) (lines : List Text) : Response :=
  { status := 200, contentType := some html, chunks := Page.chunks source lines }

def rejected (e : Rejection) : Response :=
  { status := 400, contentType := some plain, chunks := [e.message ++ [10]] }

def evaluated (r : Report) : Response :=
  { status := if r.ok then 200 else 422, contentType := some jsonType,
    chunks := Encoder.chunks { format := .json, colored := false } r }

def notAllowed : Response :=
  { status := 405, contentType := some plain, allow := some (utf8 "GET, HEAD, POST"),
    chunks := [utf8 "Method Not Allowed\n"] }

def escapedAddress (t : Text) : Text :=
  t.flatMap fun b => if b = 43 || b = 0 then [b] else escapedByte b

/-- Another address for the same request; a browser that only reads is shown a
link as well. -/
def redirect (method address : Text) : Response :=
  let reads := method = Request.get || method.isEmpty
  { status := 307, location := some (Target.asciiOnly address),
    contentType := if reads || method = utf8 "HEAD" then some html else none,
    chunks := if reads then
        [utf8 "<a href=\"" ++ escapedAddress address ++ utf8 "\">Temporary Redirect</a>.\n\n"]
      else [] }

def send (r : Response) (s : Sink) : Sink := (s.writeAll r.chunks).2

end Response

def answerIndex (r : Request) : Response :=
  if r.method = Request.post then
    match formSource r with
    | .error e => .rejected e
    | .ok source => .page source ((compile source).lines.map Line.text)
  else .page [] []

def answerEvaluation (r : Request) : Response :=
  match if r.contentType = jsonType then jsonSource r else formSource r with
  | .error e => .rejected e
  | .ok source => .evaluated (compile source)

def isEvaluationPath (p : Text) : Bool := Target.elements p == [utf8 "eval"]

def isReadable (method : Text) : Bool :=
  [[], Request.get, utf8 "HEAD", Request.post].contains method

def route (r : Request) (path : Text) : Response :=
  if r.method = Request.post && isEvaluationPath path then answerEvaluation r
  else if isReadable r.method then answerIndex r
  else .notAllowed

def respond (r : Request) : Response :=
  let path := r.target.escapedPath
  let cleaned := Target.cleanPath path
  if r.method != utf8 "CONNECT" && cleaned != path then
    .redirect r.method (Target.address cleaned r.target.query)
  else route r path

end Reckoner.Web
