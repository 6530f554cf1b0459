import BlockGraph.Checking.Outcome
import BlockGraph.Command.FileTree
import BlockGraph.Command.Help
import BlockGraph.Hardware.Format
import BlockGraph.Mapping.RoundTrip
import BlockGraph.Node.Outline
import BlockGraph.Rewrite.Folding

/-!
# Commands

What every command prints and how it ends. A command sees the files as a function from paths to
trees and does nothing but compute a report.

* `Command.run`: the report of a command.
-/

namespace BlockGraph

/-- How a command ends. -/
inductive ExitStatus where
  | success
  /-- A program has errors, or does not survive a round trip. -/
  | failed
  /-- The command makes no sense, or something that it needs is not there. -/
  | trouble
  deriving DecidableEq, Repr

def ExitStatus.code : ExitStatus → UInt32
  | success => 0
  | failed => 1
  | trouble => 2

/-- What a command prints and how it ends. -/
structure Report where
  status : ExitStatus := .success
  output : String := ""
  /-- What is printed beside the output. -/
  notes : String := ""
  /-- What ended the command before its time. -/
  error : Option Error := none
  deriving DecidableEq

def Error.exitStatus : Error → ExitStatus
  | .io _ | .config _ | .unknownPlatform .. => .trouble
  | _ => .failed

namespace Command

/-- The files that a command may look at, by path. -/
abbrev Files := String → Option FileTree

def readFile (files : Files) (path : String) : Except Error String :=
  match files path with
  | some (.file (some text)) => .ok text
  | _ => .error (.io path)

def loadDocument (files : Files) (path : String) : Except Error Document := do
  Document.read (← readFile files path)

/-- The configuration in a file. The extension tells JSON from YAML. -/
def loadConfig (files : Files) (path : String) : Except Error HardwareConfig := do
  let text ← readFile files path
  if ((FileTree.pathExtension? path).map String.toLower) == some "json" then
    HardwareConfig.readJson text
  else HardwareConfig.readYaml text

/-- The result of a computation that starts with no numbers handed out. -/
def fromScratch {α : Type} (x : Make α) : Except Error α := (x.run.run {}).1

/-! ## Printing programs -/

def programText (p : Program) : String :=
  String.join <| p.instances.zipIdx.map fun i =>
    let place := "(" ++ toString i.1.x ++ ", " ++ toString i.1.y ++ ")"
    line ("instance " ++ toString i.2 ++ " at " ++ place) ++ i.1.body.outline

def runParse (files : Files) (file : String) (platform : Option String) : Except Error Report := do
  let kinds ← PlatformRegistry.builtin.kindsFor platform
  let document ← loadDocument files file
  let program ← fromScratch (Program.ofDocument kinds document)
  let summary :=
    "format " ++ program.formatVersion ++ " | " ++ toString program.nodeCount ++
      " nodes | sha256 " ++ document.fingerprint
  return { output := line summary ++ programText program }

/-! ## Round trips -/

def diffText (changes : Text.LineDiff.Changes) : String :=
  String.join <| changes.edits.map fun
    | .same text => line (" " ++ text)
    | .add text => line ("+" ++ text)
    | .rem text => line ("-" ++ text)

def statusLine (isFine : Bool) (label : String) : String :=
  line ((if isFine then "ok  " else "FAIL") ++ " " ++ label)

/-- Whether a document survives a round trip, and what is printed about it. -/
def checkDocument (files : Files) (kinds : KindRegistry) (path : String) :
    Except Error (Bool × String) :=
  let attempt : Except Error (Bool × String) := do
    let document ← loadDocument files path
    let trip ← fromScratch (document.roundTrip kinds)
    if trip.isFaithful then return (true, statusLine true path)
    return (false, statusLine false path ++ diffText (document.diff trip.written))
  match attempt with
  | .ok verdict => .ok verdict
  | .error (.io path) => .error (.io path)
  | .error e => .ok (false, statusLine false (path ++ ": " ++ e.message))

/-- The documents at a path: the file itself, or the JSON files below the directory. -/
def documentsAt (files : Files) (path : String) : Except Error (List String) :=
  match files path with
  | none => .error (.io path)
  | some (.file _) => .ok [path]
  | some t =>
    let isDocument (file : String × Option String) : Bool :=
      FileTree.pathExtension? file.1 == some "json"
    .ok (((t.files path).filter isDocument).map (·.1))

/-- The files seen from a path, whatever is known about the path itself. -/
def filesBelow (files : Files) (path : String) : Files := fun file =>
  match (files path).bind fun t => (t.files path).lookup file with
  | some text => some (.file text)
  | none => files file

def runRoundtrip (files : Files) (path : String) (platform : Option String) :
    Except Error Report := do
  let kinds ← PlatformRegistry.builtin.kindsFor platform
  let documents ← documentsAt files path
  let verdicts ← documents.mapM (checkDocument (filesBelow files path) kinds)
  let passed := verdicts.countP (·.1)
  let failed := verdicts.length - passed
  let summary := toString passed ++ " passed, " ++ toString failed ++ " failed"
  return {
    status := if failed = 0 then .success else .failed
    output := String.join (verdicts.map (·.2)) ++ line summary }

/-! ## Validation -/

def Facts.toJson (f : Facts) : Json :=
  .obj (f.byFeature.entries.map fun e => (e.1, .arr (e.2.toList.map .str)))

/-- Prints what is wrong with a program, and perhaps the program with the findings in it. -/
def runValidate (files : Files) (file config : String) (annotate : Bool) : Except Error Report := do
  let config ← loadConfig files config
  let platform ← PlatformRegistry.builtin.get config.robot
  let kinds ← platform.board.kindRegistry
  let document ← loadDocument files file
  fromScratch do
    let program ← Program.ofDocument kinds document
    let outcome := platform.validate program config
    let findings := String.join (outcome.diagnostics.toList.map fun d => line d.render)
    let features := line ("features: " ++ (Facts.toJson outcome.facts).compact)
    let annotated ←
      if annotate then do
        let copy ← outcome.annotate program
        pure (line (← Make.ofExcept copy.toDocument).write)
      else pure ""
    return {
      status := if outcome.hasErrors then .failed else .success
      output := findings ++ features ++ annotated }

/-! ## Folding -/

def runFold (files : Files) (file : String) (platform : Option String) : Except Error Report := do
  let kinds ← PlatformRegistry.builtin.kindsFor platform
  let document ← loadDocument files file
  fromScratch do
    let program ← Program.ofDocument kinds document
    let (folded, count) ← program.foldConstants.runFrom 0
    let written ← Make.ofExcept folded.toDocument
    return {
      output := line written.write
      notes := line ("folded " ++ toString count ++ " expression(s)") }

/-! ## Platforms -/

def platformLine (b : Board) : String :=
  line (b.name ++ String.ofList (List.replicate (10 - b.name.length) ' ') ++ " " ++ b.description ++
    " (motors " ++ " ".intercalate b.motorPorts ++ ", sensors " ++
    " ".intercalate b.sensorPorts ++ ")")

def runPlatforms : Report where
  output := String.join (PlatformRegistry.builtin.toList.map fun p => platformLine p.board)

/-! ## All commands -/

/-- The report of a command, or why there is none. -/
def run? (files : Files) : Command → Except Error Report
  | .parse file platform => runParse files file platform
  | .roundtrip path platform => runRoundtrip files path platform
  | .validate file config annotate => runValidate files file config annotate
  | .fold file platform => runFold files file platform
  | .platforms => .ok runPlatforms
  | .help topic => .ok { output := helpText topic }
  | .version => .ok { output := line (programName ++ " " ++ programVersion) }

def run (files : Files) (c : Command) : Report :=
  match run? files c with
  | .ok report => report
  | .error e => { status := e.exitStatus, error := some e }

def runArguments (files : Files) (args : List String) : Report :=
  match ofArguments? args with
  | some c => c.run files
  | none => { status := .trouble }

def pathsOf : Command → List String
  | .parse file _ | .roundtrip file _ | .fold file _ => [file]
  | .validate file config _ => [file, config]
  | _ => []

end Command

end BlockGraph
