import Reckoner.Text

/-! # Slash-separated paths

Purely lexical operations: `clean` removes empty and `.` elements and lets `..`
cancel the element before it; `base` is the last element and `parent` what
stands before it; `extension` is the part of the last element from its last dot
on. -/
set_option autoImplicit false
namespace Reckoner.Path

def slash : UInt8 := 47

def dot : Text := [46]

def dotDot : Text := [46, 46]

def isRooted (p : Text) : Bool := p.head? = some slash

/-- One more element behind a clean sequence, given in reverse. -/
def pushElement (rooted : Bool) (kept : List Text) (element : Text) : List Text :=
  if element.isEmpty || element = dot then kept
  else if element = dotDot then
    match kept with
    | [] => if rooted then [] else [dotDot]
    | last :: before => if last = dotDot then dotDot :: last :: before else before
  else element :: kept

def cleanElements (p : Text) : List Text :=
  ((p.splitOn slash).foldl (pushElement (isRooted p)) []).reverse

def clean (p : Text) : Text :=
  let body := Text.join [slash] (cleanElements p)
  if isRooted p then slash :: body
  else if body.isEmpty then dot
  else body

def join (dir name : Text) : Text :=
  if dir.isEmpty then (if name.isEmpty then [] else clean name)
  else if name.isEmpty then clean dir
  else clean (dir ++ slash :: name)

/-- `.` for the empty path, `/` for slashes only. -/
def base (p : Text) : Text :=
  if p.isEmpty then dot
  else
    let trimmed := (p.reverse.dropWhile (· == slash))
    if trimmed.isEmpty then [slash]
    else (trimmed.takeWhile (· != slash)).reverse

def parent (p : Text) : Text := clean (p.reverse.dropWhile (· != slash)).reverse

/-- The path without slashes at its end, split at the last slash that is left:
what stands before it, `.` if there is none, and the name behind it. -/
def splitLast (p : Text) : Text × Text :=
  let trimmed := p.reverse.dropWhile (· == slash)
  let name := (trimmed.takeWhile (· != slash)).reverse
  match trimmed.dropWhile (· != slash) with
  | [] => (dot, name)
  | _ :: before => (before.reverse, name)

/-- The beginnings of a path that end with an element, shortest first. -/
def beginnings (p : Text) : List Text :=
  let elements := p.splitOn slash
  ((List.range elements.length).map fun k => Text.join [slash] (elements.take (k + 1))).filter
    fun beginning => !beginning.isEmpty

/-- From the last dot of the last element on; empty without a dot. -/
def extension (p : Text) : Text :=
  let last := p.reverse.takeWhile (· != slash)
  match last.dropWhile (· != 46) with
  | [] => []
  | _ :: _ => 46 :: (last.takeWhile (· != 46)).reverse

end Reckoner.Path
