import Reckoner.Diagnostic
import Reckoner.Value

/-! # Evaluating tokens

Expressions are sums of products of factors; a factor is a number or an
expression in parentheses.  Tokens are evaluated while they are read, one at a
time.  The reader keeps, for every open parenthesis, the operations that wait
for their right operand, and is in one of three phases: an operand is due, an
operator may follow, or it skips to the next `;` or `)`.

Every token adds at most one diagnostic, at that token.  A token that cannot
begin a factor loses the factor; a missing `)` loses nothing.  Both are
recovered from by skipping.  Division by zero gives up. -/
set_option autoImplicit false
namespace Reckoner

structure Abort where
  fault : Fault
  span : Span
  deriving DecidableEq, Repr, Inhabited

def Abort.message (a : Abort) : Text := a.fault.message

def Abort.diagnostic (a : Abort) : Diagnostic := ⟨.fatal, a.message, a.span⟩

/-- Left operands with their operators, waiting within one nesting level: one
of a sum and one of the product that is the sum's right operand. -/
structure Level where
  sum : Option (Value × Token) := none
  product : Option (Value × Token) := none
  deriving DecidableEq, Repr, Inhabited

inductive Phase where
  | operand
  /-- A product with this value is complete so far. -/
  | operator (value : Value)
  /-- Tokens are skipped; the factor that is recovered from has this value. -/
  | skipping (kept : Value)
  deriving DecidableEq, Repr, Inhabited

structure Reader where
  level : Level := {}
  outer : List Level := []
  phase : Phase := .operand
  diagnostics : Array Diagnostic := #[]
  deriving Repr, Inhabited

inductive Move where
  | read (next : Reader)
  /-- The token is left: the expression ended before it. -/
  | leave (value : Value)
  | abort (a : Abort) (diagnostics : Array Diagnostic)
  deriving Repr

def complete (waiting : Option (Value × Token)) (right : Value) : Except Abort Value :=
  match waiting with
  | none => .ok right
  | some (left, op) =>
    match Value.apply op.kind left right with
    | .ok v => .ok v
    | .error fault => .error ⟨fault, op.span⟩

namespace Token

def endsRecovery (t : Token) : Bool := t.lexeme = .symbol .semi || t.lexeme = .symbol .rparen

end Token

namespace Reader

def note (r : Reader) (d : Diagnostic) : Reader := { r with diagnostics := r.diagnostics.push d }

def factor (r : Reader) (v : Value) : Move :=
  match complete r.level.product v with
  | .ok w => .read { r with level := { r.level with product := none }, phase := .operator w }
  | .error a => .abort a r.diagnostics

def skip (r : Reader) (kept : Value) (t : Token) : Move :=
  if t.endsRecovery then r.factor kept else .read { r with phase := .skipping kept }

def close (r : Reader) (v : Value) (t : Token) : Move :=
  match r.outer with
  | [] => .leave v
  | level :: outer =>
    let r := { r with level := level, outer := outer }
    if t.lexeme = .symbol .rparen then r.factor v
    else (r.note (.unclosed t.span)).skip v t

def operand (r : Reader) (t : Token) : Move :=
  match t.lexeme with
  | .number n => r.factor (.ofInt n)
  | .symbol .lparen => .read { r with level := {}, outer := r.level :: r.outer, phase := .operand }
  | _ => (r.note (.unexpected t)).skip .lost t

def operator (r : Reader) (v : Value) (t : Token) : Move :=
  if t.lexeme = .symbol .star ∨ t.lexeme = .symbol .slash then
    .read { r with level := { r.level with product := some (v, t) }, phase := .operand }
  else
    match complete r.level.sum v with
    | .error a => .abort a r.diagnostics
    | .ok w =>
      if t.lexeme = .symbol .plus ∨ t.lexeme = .symbol .minus then
        .read { r with level := { r.level with sum := some (w, t) }, phase := .operand }
      else r.close w t

def step (r : Reader) (t : Token) : Move :=
  match r.phase with
  | .operand => r.operand t
  | .operator v => r.operator v t
  | .skipping kept => r.skip kept t

end Reader

/-- The result of evaluating one expression: its value, the operation that
failed if one did, the tokens left, and all diagnostics so far. -/
structure Outcome where
  value : Value
  abort : Option Abort
  rest : List Token
  diagnostics : Array Diagnostic
  deriving Repr, Inhabited

namespace Outcome

def aborted (a : Abort) (rest : List Token) (diagnostics : Array Diagnostic) : Outcome :=
  ⟨.lost, some a, rest, diagnostics.push a.diagnostic⟩

end Outcome

namespace Reader

/-- Closes every level at the end of input, from the innermost outwards: each
open parenthesis lacks its partner. -/
def unwind (atEnd : Span) (level : Level) (v : Value) (diagnostics : Array Diagnostic) :
    List Level → Outcome
  | [] =>
    match complete level.sum v with
    | .ok w => ⟨w, none, [], diagnostics⟩
    | .error a => .aborted a [] diagnostics
  | next :: outer =>
    match complete level.sum v with
    | .error a => .aborted a [] diagnostics
    | .ok w =>
      let diagnostics := diagnostics.push (.unclosed atEnd)
      match complete next.product w with
      | .ok u => unwind atEnd { next with product := none } u diagnostics outer
      | .error a => .aborted a [] diagnostics

def factorAtEnd (atEnd : Span) (r : Reader) (v : Value) : Outcome :=
  match complete r.level.product v with
  | .ok w => unwind atEnd { r.level with product := none } w r.diagnostics r.outer
  | .error a => .aborted a [] r.diagnostics

def finish (atEnd : Span) (r : Reader) : Outcome :=
  match r.phase with
  | .operand => (r.note (.unexpectedEnd atEnd)).factorAtEnd atEnd .lost
  | .operator v => unwind atEnd r.level v r.diagnostics r.outer
  | .skipping kept => r.factorAtEnd atEnd kept

def run (atEnd : Span) (r : Reader) : List Token → Outcome
  | [] => r.finish atEnd
  | t :: rest =>
    match r.step t with
    | .read next => run atEnd next rest
    | .leave v => ⟨v, none, t :: rest, r.diagnostics.push (.unexpected t)⟩
    | .abort a diagnostics => .aborted a rest diagnostics

end Reader

/-- An evaluator works through a token list, one expression at a time.
Diagnostics pile up from one expression to the next. -/
structure Evaluator where
  atEnd : Span
  rest : List Token
  diagnostics : Array Diagnostic := #[]
  deriving Repr, Inhabited

namespace Evaluator

/-- The end of input is behind the last token; without tokens it is the
beginning of the file. -/
def endOf (file : Text) (tokens : List Token) : Span :=
  match tokens.getLast? with
  | some t => t.span.stop.span
  | none => (Position.origin file).span

def start (file : Text) (tokens : List Token) : Evaluator := ⟨endOf file tokens, tokens, #[]⟩

def next (e : Evaluator) : Outcome × Evaluator :=
  let o := Reader.run e.atEnd { diagnostics := e.diagnostics } e.rest
  (o, { e with rest := o.rest, diagnostics := o.diagnostics })

end Evaluator

def evaluate (file : Text) (tokens : List Token) : Outcome := (Evaluator.start file tokens).next.1

end Reckoner
