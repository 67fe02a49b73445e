import CompilationUnit.CommandLine.Run

/-!
Trees of files, and how a path is followed in one: name by name, where a name can be looked up in a
directory only. A call can be run in a tree as it is run among the files of a machine.
-/
namespace CompilationUnit.CommandLine

/-- The names on the way to a file or directory, the last one first; the root has none. -/
abbrev Location := List String

structure FileTree where
  directories : List Location
  files : List (Location × String)
  current : Location
  deriving DecidableEq, Repr

namespace FileTree

def isDirectory (t : FileTree) (l : Location) : Bool := l.isEmpty || t.directories.contains l

def isFile (t : FileTree) (l : Location) : Bool := (t.files.lookup l).isSome

def nameBytes : Nat := 255

def pathBytes : Nat := 4095

def enter (t : FileTree) (l : Location) (part : String) : Except FileError Location :=
  if ¬ t.isDirectory l then .error .notDirectory
  else if part = "" ∨ part = "." then .ok l
  else if part = ".." then .ok l.tail
  else if nameBytes < part.utf8ByteSize then .error .nameTooLong
  else if t.isDirectory (part :: l) ∨ t.isFile (part :: l) then .ok (part :: l)
  else .error .absent

def start (t : FileTree) (path : String) : Location :=
  if path.toList.head? = some '/' then [] else t.current

def find (t : FileTree) (path : String) : Except FileError Location :=
  if pathBytes < path.utf8ByteSize then .error .nameTooLong
  else (path.splitOn "/").foldlM t.enter (t.start path)

def read (t : FileTree) (path : String) : Except FileError String := do
  let l ← t.find path
  match t.files.lookup l with
  | some content => .ok content
  | none => .error .directory

/-- Where a file with the name would be put; `slashed` says that a slash stands behind the name. -/
def place (t : FileTree) (l : Location) (name : String) (slashed : Bool) :
    Except FileError Location :=
  if ¬ t.isDirectory l then .error .notDirectory
  else if slashed then .error .directory
  else if nameBytes < name.utf8ByteSize then .error .nameTooLong
  else if t.isDirectory (name :: l) then .error .directory
  else .ok (name :: l)

def target (t : FileTree) (path : String) : Except FileError Location :=
  if pathBytes < path.utf8ByteSize then .error .nameTooLong
  else
    let parts := (path.splitOn "/").reverse
    match parts.dropWhile (· = "") with
    | [] => .error .directory
    | name :: before => do
      let l ← before.reverse.foldlM t.enter (t.start path)
      if name = "." ∨ name = ".." then
        let _ ← t.enter l name
        .error .directory
      else t.place l name (parts.head? = some "")

def writeProblem (t : FileTree) (path : String) : Option FileError :=
  match t.target path with
  | .ok _ => none
  | .error error => some error

def access (t : FileTree) : Files := ⟨t.read, t.writeProblem⟩

end FileTree

end CompilationUnit.CommandLine
