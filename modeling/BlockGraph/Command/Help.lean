import BlockGraph.Command.Arguments

/-!
# Help on the command line

The texts about the commands, their arguments and their options.
-/

namespace BlockGraph.Command

def programName : String := "blockforge"

def programVersion : String := "0.1.0"

def line (text : String) : String := text ++ "\n"

/-- Lines in two columns; `indent` is in front of each of them. -/
def columns (indent : String) (rows : List (String × String)) : String :=
  let width := (rows.map (·.1.length)).foldl max 0
  String.join <| rows.map fun row =>
    line (indent ++ row.1 ++ String.ofList (List.replicate (width + 2 - row.1.length) ' ') ++ row.2)

def aboutHelp : String := "Print this message or the help of the given subcommand(s)"

def about : Verb → String
  | .parse => "Print the AST of a block-graph document"
  | .roundtrip => "Check that documents survive parse → render unchanged"
  | .validate => "Validate a program against a hardware configuration"
  | .fold => "Fold constant expressions and print the rewritten document"
  | .platforms => "List the known platforms"

def usage : Verb → String
  | .parse => "parse [OPTIONS] <FILE>"
  | .roundtrip => "roundtrip [OPTIONS] <PATH>"
  | .validate => "validate [OPTIONS] --config <CONFIG> <FILE>"
  | .fold => "fold [OPTIONS] <FILE>"
  | .platforms => "platforms"

def paths : Verb → List (String × String)
  | .platforms => []
  | .roundtrip => [("<PATH>", "A document, or a directory searched for \x60*.json\x60 documents")]
  | _ => [("<FILE>", "")]

def options (v : Verb) : List (String × String) :=
  (match v with
    | .platforms => []
    | .parse => [("    --platform <PLATFORM>", "Accept the extension blocks of this platform only")]
    | .validate =>
      [("-c, --config <CONFIG>", "YAML or JSON hardware configuration"),
        ("    --annotate", "Print the document with the diagnostics attached as annotations")]
    | _ => [("    --platform <PLATFORM>", "")]) ++
  [("-h, --help", "Print help")]

def verbHelp (v : Verb) : String :=
  line (about v) ++ "\n" ++ line ("Usage: " ++ programName ++ " " ++ usage v) ++ "\n" ++
    (if (paths v).isEmpty then "" else line "Arguments:" ++ columns "  " (paths v) ++ "\n") ++
    line "Options:" ++ columns "  " (options v)

def programHelp : String :=
  line "Parse, round-trip, validate and rewrite visual robot programs." ++ "\n" ++
    line ("Usage: " ++ programName ++ " <COMMAND>") ++ "\n" ++ line "Commands:" ++
    columns "  " (Verb.all.map (fun v => (v.name, about v)) ++ [("help", aboutHelp)]) ++ "\n" ++
    line "Options:" ++
    columns "  " [("-h, --help", "Print help"), ("-V, --version", "Print version")]

def helpHelp : String :=
  line aboutHelp ++ "\n" ++ line ("Usage: " ++ programName ++ " help [COMMAND]...") ++ "\n" ++
    line "Arguments:" ++ columns "  " [("[COMMAND]...", "Print help for the subcommand(s)")]

def helpText : HelpTopic → String
  | .everything => programHelp
  | .verb v => verbHelp v
  | .help => helpHelp

end BlockGraph.Command
