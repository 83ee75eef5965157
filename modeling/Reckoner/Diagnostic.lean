import Reckoner.Token

/-! # Diagnostics

A diagnostic is a message about a span, found by the scanner, by the
evaluator, or by the evaluator giving up. -/
set_option autoImplicit false
namespace Reckoner

inductive Stage where
  | lexer
  | parser
  | fatal
  | unknown
  deriving DecidableEq, Repr, Inhabited

namespace Stage

def name : Stage → String
  | .lexer => "lexer"
  | .parser => "parser"
  | .fatal => "fatal"
  | .unknown => "unknown"

def ofCode (code : Int) : Stage :=
  if code = 0 then .lexer else if code = 1 then .parser else if code = 2 then .fatal else .unknown

def heading : Stage → String
  | .lexer => "Lexer error: "
  | .parser => "Parser error: "
  | .fatal | .unknown => "Parsing failed: "

end Stage

structure Diagnostic where
  stage : Stage
  message : Text
  span : Span := {}
  deriving DecidableEq, Repr, Inhabited

namespace Diagnostic

def text (d : Diagnostic) : Text := utf8 d.stage.heading ++ d.message

/-- A rune that belongs to no token; a stray byte is shown in hexadecimal. -/
def illegal (r : Rune) (span : Span) : Diagnostic :=
  let shown : Text := match r with
    | .scalar c => String.utf8EncodeChar c
    | .stray b => utf8 "\\x" ++ Text.hexByte b
  ⟨.lexer, utf8 "Illegal character '" ++ shown ++ utf8 "'", span⟩

def unexpected (t : Token) : Diagnostic :=
  ⟨.parser, utf8 "Unexpected token '" ++ t.quote ++ utf8 "'", t.span⟩

def unexpectedEnd (span : Span) : Diagnostic := ⟨.parser, utf8 "Unexpected token 'EOF'", span⟩

def unclosed (span : Span) : Diagnostic := ⟨.parser, utf8 "Expected ')'", span⟩

end Diagnostic
end Reckoner
