/-!
# Command-line arguments

What can be asked for on the command line. Options stand before or after the path; everything
behind two dashes is no option.

* `Command.ofArguments?`: the command of a list of arguments; none if they make no sense.
-/

namespace BlockGraph

/-- The commands that do something with files or platforms. -/
inductive Verb where
  | parse
  | roundtrip
  | validate
  | fold
  | platforms
  deriving DecidableEq, Repr

/-- What the help is about. -/
inductive HelpTopic where
  | everything
  | verb (verb : Verb)
  /-- The help itself. -/
  | help
  deriving DecidableEq, Repr

/-- What is asked for on the command line. -/
inductive Command where
  | parse (file : String) (platform : Option String)
  | roundtrip (path : String) (platform : Option String)
  | validate (file config : String) (annotate : Bool)
  | fold (file : String) (platform : Option String)
  | platforms
  | help (topic : HelpTopic)
  | version
  deriving DecidableEq, Repr

namespace Verb

def all : List Verb := [parse, roundtrip, validate, fold, platforms]

def name : Verb → String
  | parse => "parse"
  | roundtrip => "roundtrip"
  | validate => "validate"
  | fold => "fold"
  | platforms => "platforms"

def ofName? (name : String) : Option Verb := all.find? (·.name == name)

def takesPath (v : Verb) : Bool := v != platforms

def takesPlatform (v : Verb) : Bool := v == parse || v == roundtrip || v == fold

end Verb

namespace Command

/-- The arguments of a verb. -/
structure Given where
  path : Option String := none
  platform : Option String := none
  config : Option String := none
  annotate : Bool := false
  help : Bool := false

def setOnce (old : Option String) (value : String) : Option (Option String) :=
  match old with
  | some _ => none
  | none => some (some value)

/-- Sets a path, which must not be empty. -/
def setPath (old : Option String) (value : String) : Option (Option String) :=
  if value.isEmpty then none else setOnce old value

def after? (start text : String) : Option String :=
  if start.toList.isPrefixOf text.toList then some (String.ofList (text.toList.drop start.length))
  else none

/-- Whether an argument can be the value of an option. -/
def isValue (arg : String) : Bool := !arg.startsWith "-" || arg == "-"

def Given.setPlatform (g : Given) (value : String) : Option Given := do
  return { g with platform := ← setOnce g.platform value }

def Given.setConfig (g : Given) (value : String) : Option Given := do
  return { g with config := ← setPath g.config value }

def Given.setFile (g : Given) (value : String) : Option Given := do
  return { g with path := ← setPath g.path value }

/-- An option with its value inside the same argument. -/
def attached? (v : Verb) (arg : String) : Option (Given → Option Given) :=
  if v.takesPlatform then (after? "--platform=" arg).map fun value g => g.setPlatform value
  else if v = .validate then
    match after? "--config=" arg with
    | some value => some fun g => g.setConfig value
    | none =>
      if arg == "-c" then none
      else (after? "-c" arg).map fun value g => g.setConfig ((after? "=" value).getD value)
  else none

def detached? (v : Verb) (arg : String) : Option (String → Given → Option Given) :=
  if v.takesPlatform && arg == "--platform" then some fun value g => g.setPlatform value
  else if v == .validate && (arg == "--config" || arg == "-c") then
    some fun value g => g.setConfig value
  else none

/-- Reads the arguments of a verb. Asking for help ends the reading. -/
def readGiven (v : Verb) : (onlyPaths : Bool) → List String → Given → Option Given
  | _, [], g => some g
  | onlyPaths, arg :: args, g => do
    if onlyPaths || isValue arg then
      if !v.takesPath then none
      readGiven v onlyPaths args (← g.setFile arg)
    else if arg == "--" then readGiven v true args g
    else if arg == "--help" || (after? "-h" arg).isSome then return { g with help := true }
    else if v == .validate && arg == "--annotate" then
      if g.annotate then none
      readGiven v false args { g with annotate := true }
    else
      match attached? v arg, detached? v arg, args with
      | some set, _, args => readGiven v false args (← set g)
      | none, some set, value :: args =>
        if !isValue value then none
        readGiven v false args (← set value g)
      | none, _, _ => none

def ofGiven? (v : Verb) (g : Given) : Option Command :=
  if g.help then some (.help (.verb v))
  else
    match v with
    | .platforms => some .platforms
    | .parse => do return .parse (← g.path) g.platform
    | .roundtrip => do return .roundtrip (← g.path) g.platform
    | .fold => do return .fold (← g.path) g.platform
    | .validate => do return .validate (← g.path) (← g.config) g.annotate

def ofArguments? : List String → Option Command
  | [] => none
  | first :: args =>
    if first == "--help" || (after? "-h" first).isSome then some (.help .everything)
    else if first == "--version" || (after? "-V" first).isSome then some .version
    else if first == "help" then
      match args with
      | [] => some (.help .everything)
      | ["help"] => some (.help .help)
      | [name] => do return .help (.verb (← Verb.ofName? name))
      | _ => none
    else do
      let v ← Verb.ofName? first
      ofGiven? v (← readGiven v false args {})

end Command

end BlockGraph
