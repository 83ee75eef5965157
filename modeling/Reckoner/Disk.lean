import Reckoner.Path

/-! # A disk

A disk is a whole tree of files, directories and symbolic links, with a working
directory in it.  A rooted path is looked up from the root of the tree, any other
from the working directory; the target of a link is looked up from the root, too,
or from where the link stands.  Names are looked up as a file system does: a path
that goes on behind a file fails, links are followed up to a limit, and the link
that a path ends with is followed or not.  What is written, made or deleted goes
through links in the same way; a change that is not possible changes nothing. -/
set_option autoImplicit false
namespace Reckoner

inductive Node where
  | file (content : Text)
  | link (target : Text)
  | dir (entries : List (Text × Node))
  deriving Repr, Inhabited

/-- The entries of the root directory, by name in byte order, and the names from
the root to the working directory. -/
structure Disk where
  entries : List (Text × Node)
  working : List Text := []
  deriving Repr, Inhabited

inductive FileFault where
  | notFound
  | notDirectory
  | isDirectory
  | tooManyLinks
  | nameTooLong
  | invalidName
  deriving DecidableEq, Repr, Inhabited

def FileFault.message : FileFault → String
  | .notFound => "no such file or directory"
  | .notDirectory => "not a directory"
  | .isDirectory => "is a directory"
  | .tooManyLinks => "too many levels of symbolic links"
  | .nameTooLong => "file name too long"
  | .invalidName => "invalid argument"

structure FileError where
  operation : String
  path : Text
  fault : FileFault
  deriving DecidableEq, Repr, Inhabited

def FileError.message (e : FileError) : Text :=
  utf8 e.operation ++ 32 :: e.path ++ utf8 ": " ++ utf8 e.fault.message

namespace Node

def isDir : Node → Bool
  | .dir _ => true
  | _ => false

def at? : Node → List Text → Option Node
  | n, [] => some n
  | .dir entries, name :: rest =>
    match entries.lookup name with
    | some n => n.at? rest
    | none => none
  | _, _ :: _ => none

def size : Node → Nat
  | .file _ => 1
  | .link _ => 1
  | .dir entries => 1 + sizes entries
where
  sizes : List (Text × Node) → Nat
    | [] => 0
    | (_, n) :: rest => n.size + sizes rest

end Node

/-- The names from the root to where a path leads. -/
abbrev Place := List Text

namespace Disk

def root (disk : Disk) : Node := .dir disk.entries

def nodeAt? (disk : Disk) (place : Place) : Option Node := disk.root.at? place

/-- How the last name of a path is taken. -/
structure LastName where
  followed : Bool
  mayMiss : Bool := false
  deriving DecidableEq, Repr, Inhabited

def linkLimit : Nat := 40

def nameLimit : Nat := 255

def pathLimit : Nat := 4095

/-- The place that names lead to from another place.  An empty name and `.`
stay, but only in a directory; `..` of the root is the root. -/
def locate (disk : Disk) (last : LastName) (links : Nat) (here : Place) :
    List Text → Except FileFault Place
  | [] => .ok here
  | name :: rest =>
    match disk.nodeAt? here with
    | some (.dir entries) =>
      if name.isEmpty || name = Path.dot then disk.locate last links here rest
      else if name = Path.dotDot then disk.locate last links here.dropLast rest
      else if nameLimit < name.length then .error .nameTooLong
      else
        match entries.lookup name with
        | some (.link target) =>
          if rest.isEmpty && !last.followed then .ok (here ++ [name])
          else
            match links with
            | 0 => .error .tooManyLinks
            | links + 1 =>
              disk.locate last links (if Path.isRooted target then [] else here)
                (target.splitOn Path.slash ++ rest)
        | some _ => disk.locate last links (here ++ [name]) rest
        | none =>
          if rest.isEmpty && last.mayMiss then .ok (here ++ [name]) else .error .notFound
    | some _ => .error .notDirectory
    -- Only where the look-up begins: the working directory is gone.
    | none => .error .notFound
termination_by names => (links, names.length)

def origin (disk : Disk) (rooted : Bool) : Place := if rooted then [] else disk.working

def resolve (disk : Disk) (last : LastName) (path : Text) : Except FileFault Place :=
  if path.contains 0 then .error .invalidName
  else if path.isEmpty then .error .notFound
  else if pathLimit < path.length then .error .nameTooLong
  else
    disk.locate last linkLimit (disk.origin (Path.isRooted path)) (path.splitOn Path.slash)

def node (disk : Disk) (followLast : Bool) (path : Text) : Except FileFault Node :=
  match disk.resolve { followed := followLast } path with
  | .error fault => .error fault
  | .ok place =>
    match disk.nodeAt? place with
    | some n => .ok n
    | none => .error .notFound

def stat (disk : Disk) (path : Text) : Except FileError Node :=
  (disk.node true path).mapError fun fault => ⟨"stat", path, fault⟩

def lstat (disk : Disk) (path : Text) : Except FileError Node :=
  (disk.node false path).mapError fun fault => ⟨"lstat", path, fault⟩

def read (disk : Disk) (path : Text) : Except FileError Text :=
  match disk.node true path with
  | .ok (.file content) => .ok content
  | .ok (.dir _) => .error ⟨"read", path, .isDirectory⟩
  | .ok (.link _) => .error ⟨"open", path, .tooManyLinks⟩
  | .error fault => .error ⟨"open", path, fault⟩

/-- The paths of all files and links below a path, without following links, in
the order of their names.  Fuel bounds the depth. -/
def walk (disk : Disk) : Nat → Text → List Text
  | 0, _ => []
  | fuel + 1, path =>
    match disk.lstat path with
    | .ok (.dir entries) => entries.flatMap fun (name, _) => disk.walk fuel (Path.join path name)
    | .ok _ => [path]
    | .error _ => []

def setEntry (name : Text) (n : Node) : List (Text × Node) → List (Text × Node)
  | [] => [(name, n)]
  | (other, m) :: rest =>
    if name = other then (name, n) :: rest
    else if Text.before name other then (name, n) :: (other, m) :: rest
    else (other, m) :: setEntry name n rest

def put (n : Node) : List Text → List (Text × Node) → List (Text × Node)
  | [], entries => entries
  | [name], entries => setEntry name n entries
  | name :: rest, entries =>
    match entries.lookup name with
    | some (.dir inner) => setEntry name (.dir (put n rest inner)) entries
    | _ => entries

def remove : List Text → List (Text × Node) → List (Text × Node)
  | [], entries => entries
  | [name], entries => entries.filter fun e => e.1 != name
  | name :: rest, entries =>
    match entries.lookup name with
    | some (.dir inner) => setEntry name (.dir (remove rest inner)) entries
    | _ => entries

def create? (disk : Disk) (n : Node) (path : Text) : Option Disk :=
  match disk.resolve { followed := false, mayMiss := true } path with
  | .ok place =>
    if (disk.nodeAt? place).isSome then none
    else some { disk with entries := put n place disk.entries }
  | .error _ => none

def withDir? (disk : Disk) (path : Text) : Option Disk :=
  match disk.node true path with
  | .ok (.dir _) => some disk
  | .ok _ => none
  | .error _ => disk.create? (.dir []) path

def makeEach (disk : Disk) : List Text → Bool × Disk
  | [] => (true, disk)
  | path :: rest =>
    match disk.withDir? path with
    | some disk => disk.makeEach rest
    | none => (false, disk)

def makeDir (disk : Disk) (path : Text) : Disk := (disk.makeEach (Path.beginnings path)).2

def withParent (disk : Disk) (path : Text) (change : Disk → Disk) : Disk :=
  match disk.makeEach (Path.beginnings (Path.parent path)) with
  | (true, disk) => change disk
  | (false, disk) => disk

/-- Writes a file.  A link that leads nowhere is followed all the same, and the
file appears where it points to. -/
def write (disk : Disk) (path content : Text) : Disk :=
  disk.withParent path fun disk =>
    match disk.resolve { followed := true, mayMiss := true } path with
    | .ok place =>
      match disk.nodeAt? place with
      | some (.dir _) => disk
      | _ => { disk with entries := put (.file content) place disk.entries }
    | .error _ => disk

def makeLink (disk : Disk) (path target : Text) : Disk :=
  disk.withParent path fun disk =>
    if target.isEmpty || target.contains 0 || pathLimit < target.length then disk
    else (disk.create? (.link target) path).getD disk

def clear (disk : Disk) : Place → Disk
  | [] => { disk with entries := [] }
  | place =>
    match disk.nodeAt? place with
    | some (.dir _) => { disk with entries := put (.dir []) place disk.entries }
    | _ => disk

/-- Removes a name from the directory at a place, if it is one.  A directory
that is called `.` or `..` stays, without its contents. -/
def removeName (disk : Disk) (place : Place) (name : Text) : Disk :=
  if !(disk.nodeAt? place).any Node.isDir then disk
  else if name = Path.dot then disk.clear place
  else if name = Path.dotDot then disk.clear place.dropLast
  else { disk with entries := remove (place ++ [name]) disk.entries }

/-- Deletes a path and all that is below it; a missing one is fine, and a link
is deleted itself.  A path whose end is written as `.` is left alone. -/
def delete (disk : Disk) (path : Text) : Disk :=
  let (parent, name) := Path.splitLast path
  if path.getLast? != some Path.slash && name = Path.dot then disk
  else
    match disk.resolve { followed := true } parent with
    | .error _ => disk
    | .ok place => disk.removeName place name

end Disk
end Reckoner
