import Reckoner.Report.Document
import Reckoner.Sink

/-! # Encoding reports

A report is written as its lines, painted or not, or as an indented JSON
document.  An encoder remembers the last report it was given, whether writing
it succeeded or not. -/
set_option autoImplicit false
namespace Reckoner

inductive Format where
  | text
  | json
  deriving DecidableEq, Repr, Inhabited

namespace Format

def ofName? (name : Text) : Option Format :=
  if name = utf8 "text" then some .text
  else if name = utf8 "json" then some .json
  else none

def unknownMessage (name : Text) : Text := utf8 "unknown format: " ++ name

end Format

def rendition (codes : String) : Text := 27 :: utf8 ("[" ++ codes ++ "m")

def LineKind.paint : LineKind → String × String
  | .tokens => ("2", "22")
  | .lexerError | .parserError => ("33", "0")
  | .fatal => ("31;1", "0;22")
  | .success => ("32", "0")
  | .failure => ("31", "0")

def Line.painted (l : Line) : Text :=
  rendition l.kind.paint.1 ++ l.text ++ rendition l.kind.paint.2

namespace Report

def header (r : Report) : Text :=
  if r.file.isEmpty then [] else utf8 "== " ++ r.file ++ [10]

def linesText (colored : Bool) (r : Report) : Text :=
  r.header ++ r.lines.flatMap fun l => (if colored then l.painted else l.text) ++ [10]

def lineChunks (r : Report) : List Text := r.lines.map fun l => l.text ++ [10]

end Report

structure Encoder where
  format : Format
  colored : Bool
  last : Option Report := none
  deriving Repr, Inhabited

namespace Encoder

def render (e : Encoder) (r : Report) : Text :=
  match e.format with
  | .text => r.linesText e.colored
  | .json => r.document.indented 0

/-- The writes that encode a report: a document and its line end are two. -/
def chunks (e : Encoder) (r : Report) : List Text :=
  match e.format with
  | .text => [e.render r]
  | .json => [e.render r, [10]]

def encode (e : Encoder) (r : Report) (s : Sink) : Bool × Encoder × Sink :=
  let (written, s) := s.writeAll (e.chunks r)
  (written, { e with last := some r }, s)

def lastText? (e : Encoder) : Option Text := e.last.map e.render

def noReportMessage : Text := utf8 "no report to encode"

end Encoder

def writeLines (s : Sink) (r : Report) : Bool × Sink := s.writeAll r.lineChunks

/-- Compiles a source and writes the lines of its report; the report is complete
also when they could not be written. -/
def writeSource (s : Sink) (file source : Text) : Bool × Report × Sink :=
  let r := compileAt file source
  let (written, s) := writeLines s r
  (written, r, s)

/-- Compiles sources in order and writes their lines, up to a failed write;
gives the reports that were begun. -/
def writeSources (s : Sink) : List Text → Bool × List Report × Sink
  | [] => (true, [], s)
  | source :: rest =>
    match writeSource s [] source with
    | (false, r, s) => (false, [r], s)
    | (true, r, s) =>
      let (written, reports, s) := writeSources s rest
      (written, r :: reports, s)

def writeExamples (s : Sink) : Bool × List Report × Sink := writeSources s examples

def writeFailedMessage : Text := utf8 "write report: " ++ Sink.fullMessage

end Reckoner
