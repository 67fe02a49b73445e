import CompilationUnit.Manifest

/-!
Manifests in files: the errors of files, and of loading a manifest from one.
-/
namespace CompilationUnit

inductive FileError
  | absent
  | notUtf8
  | directory
  | notDirectory
  | nameTooLong
  | denied
  deriving DecidableEq, Repr

def FileError.message : FileError → String
  | .absent => "No such file or directory (os error 2)"
  | .notUtf8 => "stream did not contain valid UTF-8"
  | .directory => "Is a directory (os error 21)"
  | .notDirectory => "Not a directory (os error 20)"
  | .nameTooLong => "File name too long (os error 36)"
  | .denied => "Permission denied (os error 13)"

def textOfBytes (bytes : ByteArray) : Except FileError String :=
  match String.fromUTF8? bytes with
  | some text => .ok text
  | none => .error .notUtf8

inductive LoadError
  | malformed (fault : Json.Fault)
  | unreadable (error : FileError)
  deriving DecidableEq, Repr

def LoadError.cause : LoadError → String
  | .malformed fault => fault.message
  | .unreadable error => error.message

def LoadError.message : LoadError → String
  | .malformed fault => "Manifest error: " ++ fault.message
  | .unreadable error => "I/O error: " ++ error.message

def Manifest.load (content : Except FileError String) : Except LoadError Manifest :=
  match content with
  | .error error => .error (.unreadable error)
  | .ok text =>
    match Manifest.ofText text with
    | .error fault => .error (.malformed fault)
    | .ok manifest => .ok manifest

end CompilationUnit
