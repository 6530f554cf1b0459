import BlockGraph.Command.Run

/-!
# The command line

Reads the files that a command is about, and prints its report. A path that is no file stands for a
directory; the paths of the files in it come from the standard input, one on a line.
-/

namespace BlockGraph.Main

/-- The text of a file, if it can be read. -/
def readText? (path : String) : IO (Option String) := do
  try
    return some (← IO.FS.readFile path)
  catch _ =>
    return none

/-- The lines that are left on a stream. -/
partial def readLines (input : IO.FS.Stream) : IO (List String) := do
  let line ← input.getLine
  if line.isEmpty then return []
  return line.trimAsciiEnd.toString :: (← readLines input)

def readPath? (path : String) : IO (Option FileTree) := do
  if let some text ← readText? path then return some (.file (some text))
  let below := (← readLines (← IO.getStdin)).filterMap (Command.after? (FileTree.join path ""))
  if below.isEmpty then return none
  let files ← below.mapM fun name => do
    return (FileTree.pathNames name, FileTree.file (← readText? (FileTree.join path name)))
  return some (files.foldl (fun t file => file.2.put t file.1) .empty)

def readPaths (args : List String) : IO Command.Files := do
  let paths := ((Command.ofArguments? args).map Command.pathsOf).getD []
  let trees ← paths.mapM fun path => do return (path, ← readPath? path)
  return fun path => (trees.lookup path).bind fun t => t

end BlockGraph.Main

def main (args : List String) : IO UInt32 := do
  let report := BlockGraph.Command.runArguments (← BlockGraph.Main.readPaths args) args
  IO.print report.output
  IO.eprint report.notes
  if let some e := report.error then
    IO.eprintln (e.code ++ "\n" ++ e.message)
    if let some help := e.help? then IO.eprintln ("help: " ++ help)
  return report.status.code
