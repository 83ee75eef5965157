import Reckoner.Text

/-! # Sinks

A sink takes output chunk by chunk.  One write call, counted from 0, may be
destined to fail: it then writes nothing, and all others succeed. -/
set_option autoImplicit false
namespace Reckoner

structure Sink where
  failAt : Option Nat := none
  calls : Nat := 0
  chunks : Array Text := #[]
  deriving Repr, Inhabited

namespace Sink

def write (s : Sink) (chunk : Text) : Bool × Sink :=
  if s.failAt = some s.calls then (false, { s with calls := s.calls + 1 })
  else (true, { s with calls := s.calls + 1, chunks := s.chunks.push chunk })

def writeAll (s : Sink) : List Text → Bool × Sink
  | [] => (true, s)
  | c :: rest =>
    match s.write c with
    | (true, s) => s.writeAll rest
    | (false, s) => (false, s)

/-- Writes every chunk, whatever becomes of the others. -/
def pour (s : Sink) (chunks : List Text) : Sink := chunks.foldl (fun s c => (s.write c).2) s

def output (s : Sink) : Text := s.chunks.toList.flatten

def fullMessage : Text := utf8 "sink full"

end Sink
end Reckoner
