import Reckoner.Report
import Reckoner.Json.Writer

/-! # Reports as JSON documents

Empty names, empty texts and empty diagnostic lists are left out.  The value is
left out when it is lost or too large for a binary64 number; its display never
is while there is a value. -/
set_option autoImplicit false
namespace Reckoner

/-- Numbers in documents are positional from a millionth up to 10^21, and an
exponent is as short as it can be. -/
def Binary64.documentLayout : Layout := ⟨-6, 21, 1⟩

def nonEmpty (name : String) (t : Text) : List (Text × Json) :=
  if t.isEmpty then [] else [(utf8 name, .string t)]

def Position.document (p : Position) : List (Text × Json) :=
  [(utf8 "line", .ofInt p.line), (utf8 "column", .ofInt p.column)]

def Token.document (t : Token) : Json :=
  let value := match t.lexeme with
    | .number n => [(utf8 "value", Json.string (Text.ofInt n))]
    | _ => []
  .object ((utf8 "kind", .word t.kind.name) :: value ++ t.span.start.document)

def Diagnostic.document (d : Diagnostic) : Json :=
  .object ([(utf8 "stage", .word d.stage.name), (utf8 "message", .string d.message)] ++
    d.span.start.document)

def Value.document (v : Value) : List (Text × Json) :=
  if v.isNumber then
    let number := match v.toBinary64 with
      | .infinite _ => []
      | x => [(utf8 "value", Json.number (x.render Binary64.documentLayout))]
    number ++ [(utf8 "display", .string v.text)]
  else []

def Report.document (r : Report) : Json :=
  .object (nonEmpty "file" r.file ++
    [(utf8 "source", .string r.source),
      (utf8 "tokens", .array (r.tokens.map Token.document))] ++
    (if r.diagnostics.isEmpty then []
      else [(utf8 "diagnostics", .array (r.diagnostics.map Diagnostic.document))]) ++
    r.value.document ++
    [(utf8 "ok", .bool r.ok)] ++
    (match r.failure with
      | some f => nonEmpty "error" f.message
      | none => []))

end Reckoner
