import Reckoner.Scanner
import Reckoner.Evaluation
import Reckoner.Value.Display

/-! # Reports

A report is everything that compiling one source found out.  Its lines come in
a fixed order: scanner diagnostics, the token listing, evaluator diagnostics,
then either the fatal diagnostics or the outcome. -/
set_option autoImplicit false
namespace Reckoner

inductive Failure where
  | aborted (a : Abort)
  | other (message : Text)
  deriving DecidableEq, Repr, Inhabited

def Failure.message : Failure → Text
  | .aborted a => a.message
  | .other m => m

structure Report where
  file : Text := []
  source : Text := []
  tokens : List Token := []
  diagnostics : List Diagnostic := []
  value : Value := .lost
  failure : Option Failure := none
  deriving Repr, Inhabited

inductive LineKind where
  | tokens | lexerError | parserError | fatal | success | failure
  deriving DecidableEq, Repr, Inhabited

structure Line where
  kind : LineKind
  text : Text
  deriving DecidableEq, Repr, Inhabited

namespace Report

def ok (r : Report) : Bool := r.failure.isNone && r.value.isNumber

def listing (r : Report) : Text := Token.listing r.tokens

def stageLines (r : Report) (stage : Stage) (kind : LineKind) : List Line :=
  (r.diagnostics.filter fun d => d.stage = stage).map fun d => ⟨kind, d.text⟩

def outcomeLine (r : Report) : Line :=
  if r.value.isNumber then ⟨.success, utf8 "Compilation successful: " ++ r.value.text⟩
  else ⟨.failure, utf8 "Compilation failed: no value after error recovery"⟩

def lines (r : Report) : List Line :=
  r.stageLines .lexer .lexerError ++ [⟨.tokens, r.listing⟩] ++
    r.stageLines .parser .parserError ++
    match r.stageLines .fatal .fatal with
    | [] => [r.outcomeLine]
    | fatal => fatal

end Report

/-- Compiles a source; positions carry the file name, the report does not. -/
def compileAt (file source : Text) : Report :=
  let scanned := scan file source
  let outcome := evaluate file scanned.tokens
  { source := source, tokens := scanned.tokens,
    diagnostics := scanned.diagnostics ++ outcome.diagnostics.toList,
    value := outcome.value, failure := outcome.abort.map .aborted }

def compile (source : Text) : Report := compileAt [] source

def compileFile (file source : Text) : Report := { compileAt file source with file := file }

def examples : List Text := [utf8 "3 + 5 * (10 - 4)", utf8 "3 + 5 * (10 - 4;"]

end Reckoner
