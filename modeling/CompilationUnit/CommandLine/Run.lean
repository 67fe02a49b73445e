import CompilationUnit.CommandLine.Arguments
import CompilationUnit.Emission.Whole
import CompilationUnit.Extraction
import CompilationUnit.ManifestFile

/-!
What a call of the command line comes to: its exit code, what it prints, and the file it writes.
-/
namespace CompilationUnit.CommandLine

open Text (Style)

structure Files where
  read : String → Except FileError String
  writeProblem : String → Option FileError

structure Written where
  path : String
  content : String
  deriving DecidableEq, Repr

structure Result where
  exit : Nat
  stdout : String
  stderr : String
  written : Option Written
  deriving DecidableEq, Repr

structure Failure where
  message : String
  causes : List String
  deriving DecidableEq, Repr

def hanging (indentation : String) (text : String) : String :=
  String.join (text.toList.map fun c => if c = '\n' then "\n" ++ indentation else c.toString)

def causesText : List String → String
  | [] => ""
  | [only] => "\n\nCaused by:\n    " ++ hanging "    " only
  | several =>
    "\n\nCaused by:" ++ String.join (several.mapIdx fun i cause =>
      "\n    " ++ toString i ++ ": " ++ hanging "       " cause)

def Failure.text (f : Failure) : String := "Error: " ++ f.message ++ causesText f.causes ++ "\n"

def Result.printed (text : String) : Result := ⟨0, text, "", none⟩

def Result.failed (f : Failure) : Result := ⟨1, "", f.text, none⟩

def loadRegistry (files : Files) (path : String) : Except Failure Registry :=
  match Manifest.load (files.read path) with
  | .error error =>
    .error ⟨"failed to load manifest " ++ path, [error.message, error.cause]⟩
  | .ok manifest =>
    match manifest.registry with
    | .error error => .error ⟨error.message, []⟩
    | .ok registry => .ok registry

def lines (texts : List String) : String := String.join (texts.map (· ++ "\n"))

def orderText (json : Bool) (x : Extraction) : String :=
  if json then recordsText x.functions ++ "\n" else lines x.names

def painted (colors : Bool) (style : Style) (text : String) : String :=
  if colors then style.paint text else text

def edgeLine (e : Edge) : String := "  " ++ e.caller ++ " -> " ++ e.callee

def findings (colors : Bool) (title : String) (found : List String) : List String :=
  ["", painted colors .brightYellow (title ++ " (" ++ toString found.length ++ ")")] ++ found

def reportText (colors json : Bool) (registered : Nat) (x : Extraction) : String :=
  if json then x.report.encode.pretty ++ "\n"
  else lines <|
    [ painted colors Style.brightCyan.bold " Extraction Report",
      painted colors .brightCyan (String.ofList (List.replicate 50 '=')),
      "Registered: " ++ toString registered,
      "Emitted: " ++ toString x.functions.length]
    ++ findings colors "Pruned" (x.report.pruned.map ("  " ++ ·))
    ++ findings colors "Dangling references" (x.report.dangling.map edgeLine)
    ++ findings colors "Cyclic dependencies skipped" (x.report.backEdges.map edgeLine)

def emissionOf (flags : List Flag) (x : Extraction) : Emission :=
  { functions := x.functions
    config := { Config.default with
      groupByPlacement := decide (.grouped ∈ flags)
      annotatePlaceholders := decide (.annotatePlaceholders ∈ flags) } }

def deliver (files : Files) (colors : Bool) (output : Option String) (text : String) : Result :=
  match output with
  | none => .printed text
  | some path =>
    match files.writeProblem path with
    | some error => .failed ⟨"failed to write " ++ path, [error.message]⟩
    | none =>
      { exit := 0
        stdout :=
          " " ++ painted colors Style.brightGreen.bold "SUCCESS:" ++ " Wrote " ++ path ++ "\n"
        stderr := ""
        written := some ⟨path, text⟩ }

def Call.run (files : Files) (colors : Bool) (c : Call) : Result :=
  match loadRegistry files c.manifest with
  | .error failure => .failed failure
  | .ok registry =>
    let x := registry.extraction
    let json := decide (.json ∈ c.flags)
    match c.subcommand with
    | .order => .printed (orderText json x)
    | .report => .printed (reportText colors json registry.size x)
    | .emit =>
      match (emissionOf c.flags x).render (if json then .json else .text) colors with
      | .error error => .failed ⟨error.message, []⟩
      | .ok text => deliver files colors c.output text

def versionText : String := "funcgen 0.1.0\n"

def run (files : Files) (colors : Bool) (arguments : List String) : Result :=
  match parseArguments false arguments with
  | .call c => c.run files colors
  | .version => .printed versionText
  | .help => .printed ""
  | .usage => ⟨2, "", "", none⟩

end CompilationUnit.CommandLine
