import Reckoner.Report

/-! # Diagnostics as an editor sees them

An editor counts lines and characters from 0, in 32 bits.  A position before
the first line or column is moved there.  A diagnostic of the evaluator is only
a warning while the report has a value. -/
set_option autoImplicit false
namespace Reckoner.Editor

structure EditorPosition where
  line : UInt32
  character : UInt32
  deriving DecidableEq, Repr, Inhabited

structure EditorRange where
  start : EditorPosition
  stop : EditorPosition
  deriving DecidableEq, Repr, Inhabited

inductive Severity where
  | error
  | warning
  deriving DecidableEq, Repr, Inhabited

def Severity.code : Severity → Nat
  | .error => 1
  | .warning => 2

structure EditorDiagnostic where
  range : EditorRange
  severity : Severity
  message : Text
  deriving DecidableEq, Repr, Inhabited

/-- A count from 1 in 64 bits as a count from 0 in 32 bits. -/
def coordinate (n : Int) : UInt32 := UInt32.ofNat (Int.bmod (n - 1) (Nat.pow 2 64)).toNat

def positionOf (p : Position) : EditorPosition := ⟨coordinate p.line, coordinate p.column⟩

def rangeOf (s : Span) : EditorRange := ⟨positionOf s.start, positionOf s.stop⟩

def severityOf (r : Report) (d : Diagnostic) : Severity :=
  if d.stage = .parser ∧ r.value.isNumber then .warning else .error

def diagnosticsOf (r : Report) : List EditorDiagnostic :=
  r.diagnostics.map fun d => ⟨rangeOf d.span, severityOf r d, d.text⟩

def hoverText (r : Report) : Text :=
  match r.lines.getLast? with
  | some l => l.text
  | none => []

end Reckoner.Editor
