/-!
Arguments of the command line: a subcommand, the manifest it works on, and flags, each of which may
be given once. Options may stand before or behind the manifest; the one that asks for logging also
before the subcommand.
-/
namespace CompilationUnit.CommandLine

inductive Subcommand
  | order
  | emit
  | report
  deriving DecidableEq, Repr

def Subcommand.ofName? : String → Option Subcommand
  | "order" => some .order
  | "emit" => some .emit
  | "report" => some .report
  | _ => none

inductive Flag
  | json
  | grouped
  | annotatePlaceholders
  | verbose
  deriving DecidableEq, Repr

def Flag.ofName? : String → Option Flag
  | "json" => some .json
  | "grouped" => some .grouped
  | "annotate-placeholders" => some .annotatePlaceholders
  | "verbose" => some .verbose
  | _ => none

def Subcommand.takes : Subcommand → Flag → Bool
  | _, .json => true
  | _, .verbose => true
  | .emit, .grouped => true
  | .emit, .annotatePlaceholders => true
  | _, _ => false

def Subcommand.takesOutput : Subcommand → Bool
  | .emit => true
  | _ => false

structure Given where
  flags : List Flag
  output : Option String
  manifest : Option String
  deriving DecidableEq, Repr

def Given.nothing : Given := ⟨[], none, none⟩

inductive Refusal
  | usage
  | help
  deriving DecidableEq, Repr

structure Call where
  subcommand : Subcommand
  flags : List Flag
  output : Option String
  manifest : String
  deriving DecidableEq, Repr

inductive Request
  | call (c : Call)
  | version
  | help
  | usage
  deriving DecidableEq, Repr

inductive Expecting
  | anything
  | outputPath
  | manifestOnly
  deriving DecidableEq, Repr

abbrev Parsed := Except Refusal (Given × Expecting)

def Given.addFlag (given : Given) (s : Subcommand) (flag : Flag) : Except Refusal Given :=
  if s.takes flag ∧ flag ∉ given.flags then .ok { given with flags := given.flags ++ [flag] }
  else .error .usage

def Given.addOutput (given : Given) (s : Subcommand) (path : String) : Except Refusal Given :=
  if s.takesOutput ∧ given.output = none ∧ ¬ path.isEmpty then
    .ok { given with output := some path }
  else .error .usage

def Given.addManifest (given : Given) (path : String) : Except Refusal Given :=
  if given.manifest = none ∧ ¬ path.isEmpty then .ok { given with manifest := some path }
  else .error .usage

def Given.awaitOutput (given : Given) (s : Subcommand) : Parsed :=
  if s.takesOutput ∧ given.output = none then .ok (given, .outputPath) else .error .usage

def Given.addLong (given : Given) (s : Subcommand) (name : String) (value : Option String) :
    Parsed :=
  if name = "output" then
    match value with
    | some path => (given.addOutput s path).map (·, .anything)
    | none => given.awaitOutput s
  else
    match Flag.ofName? name, value with
    | some flag, none => (given.addFlag s flag).map (·, .anything)
    | _, _ => .error (if name = "help" ∧ value = none then .help else .usage)

def Given.addShort (given : Given) (s : Subcommand) : List Char → Parsed
  | [] => .ok (given, .anything)
  | 'h' :: _ => .error .help
  | 'v' :: more =>
    match given.addFlag s .verbose with
    | .ok given => given.addShort s more
    | .error refusal => .error refusal
  | ['o'] => given.awaitOutput s
  | 'o' :: '=' :: path => (given.addOutput s (String.ofList path)).map (·, .anything)
  | 'o' :: path => (given.addOutput s (String.ofList path)).map (·, .anything)
  | _ => .error .usage

def splitLong (cs : List Char) : String × Option String :=
  let name := String.ofList (cs.takeWhile (· != '='))
  match cs.dropWhile (· != '=') with
  | [] => (name, none)
  | _ :: value => (name, some (String.ofList value))

def isOption : List Char → Bool
  | '-' :: _ :: _ => true
  | _ => false

def Given.add (given : Given) (s : Subcommand) (expecting : Expecting) (argument : String) :
    Parsed :=
  match expecting, argument.toList with
  | .manifestOnly, _ => (given.addManifest argument).map (·, .manifestOnly)
  | .outputPath, cs =>
    if isOption cs then .error .usage else (given.addOutput s argument).map (·, .anything)
  | .anything, ['-', '-'] => .ok (given, .manifestOnly)
  | .anything, '-' :: '-' :: cs => given.addLong s (splitLong cs).1 (splitLong cs).2
  | .anything, '-' :: c :: cs => given.addShort s (c :: cs)
  | .anything, _ => (given.addManifest argument).map (·, .anything)

def Given.addAll (s : Subcommand) : Given → Expecting → List String → Except Refusal Given
  | given, .outputPath, [] => if given.output.isNone then .error .usage else .ok given
  | given, _, [] => .ok given
  | given, expecting, argument :: others =>
    match given.add s expecting argument with
    | .ok (given, expecting) => Given.addAll s given expecting others
    | .error refusal => .error refusal

def requestOf (s : Subcommand) (arguments : List String) : Request :=
  match Given.addAll s .nothing .anything arguments with
  | .error .usage => .usage
  | .error .help => .help
  | .ok given =>
    match given.manifest with
    | some manifest => .call ⟨s, given.flags, given.output, manifest⟩
    | none => .usage

def leadingShort (verbose : Bool) : List Char → Except Request Bool
  | [] => .ok verbose
  | 'v' :: more => if verbose then .error .usage else leadingShort true more
  | 'V' :: _ => .error .version
  | 'h' :: _ => .error .help
  | _ => .error .usage

def parseArguments (verbose : Bool) : List String → Request
  | [] => .usage
  | "--verbose" :: others => if verbose then .usage else parseArguments true others
  | "--version" :: _ => .version
  | "--help" :: _ => .help
  | ["help"] => .help
  | ["help", name] =>
    if name = "help" ∨ (Subcommand.ofName? name).isSome then .help else .usage
  | argument :: others =>
    match argument.toList with
    | '-' :: '-' :: _ => .usage
    | '-' :: c :: cs =>
      match leadingShort verbose (c :: cs) with
      | .ok verbose => parseArguments verbose others
      | .error request => request
    | _ =>
      match Subcommand.ofName? argument with
      | some s => requestOf s others
      | none => .usage

end CompilationUnit.CommandLine
