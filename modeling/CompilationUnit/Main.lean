import CompilationUnit.CommandLine.Run

/-!
The program: reads the manifest, prints what the call comes to, and writes the file it asks for.
-/
namespace CompilationUnit.CommandLine

def fileError : IO.Error → FileError
  | .inappropriateType _ 20 _ => .notDirectory
  | .inappropriateType _ _ _ => .directory
  | .invalidArgument _ 36 _ => .nameTooLong
  | .permissionDenied _ _ _ => .denied
  | _ => .absent

def readFile (path : String) : IO (Except FileError String) := do
  try
    let bytes ← IO.FS.readBinFile path
    pure (textOfBytes bytes)
  catch error => pure (.error (fileError error))

def filesFor (arguments : List String) : IO Files := do
  let content ← match parseArguments false arguments with
    | .call c => readFile c.manifest
    | _ => pure (.error .absent)
  pure ⟨fun _ => content, fun _ => none⟩

def writeOutput (files : Files) (colors : Bool) (arguments : List String) (result : Result) :
    IO Result := do
  match result.written with
  | none => pure result
  | some file =>
    try
      IO.FS.writeFile file.path file.content
      pure result
    catch error =>
      let problem := fileError error
      pure (run { files with writeProblem := fun _ => some problem } colors arguments)

end CompilationUnit.CommandLine

open CompilationUnit.CommandLine

def main (arguments : List String) : IO UInt32 := do
  let colors ← IO.getEnv "CLICOLOR_FORCE"
  let colors := colors.isSome && colors != some "0"
  let files ← filesFor arguments
  let result ← writeOutput files colors arguments (run files colors arguments)
  IO.print result.stdout
  IO.eprint result.stderr
  pure (UInt32.ofNat result.exit)
