import BlockGraph.SortedMap

/-!
# File trees

The files that a command may look at, as one value. Paths are resolved name by name, from the
directory that the tree stands for.

* `FileTree.find?`: what a path leads to.
* `FileTree.files`: the paths of all files below a directory.
-/

namespace BlockGraph

/-- A file, or a directory with what is in it. A file without a text cannot be read. -/
inductive FileTree where
  | file (text : Option String)
  | directory (entries : List (String × FileTree))
  deriving Inhabited

namespace FileTree

def empty : FileTree := .directory []

def isDirectory : FileTree → Bool
  | .directory _ => true
  | .file _ => false

def entry? : FileTree → (name : String) → Option FileTree
  | .directory entries, name => entries.lookup name
  | .file _, _ => none

/-- Puts a tree at a place below a directory and makes the directories on the way. -/
def put (new : FileTree) : FileTree → (names : List String) → FileTree
  | _, [] => new
  | t, name :: names =>
    let entries :=
      match t with
      | .directory entries => entries
      | .file _ => []
    let below := put new ((entries.lookup name).getD empty) names
    .directory ((name, below) :: entries.filter (·.1 != name))

def pathNames (path : String) : List String := path.splitOn "/"

/-- Follows names; `above` are the directories on the way, innermost first. -/
def follow : (above : List FileTree) → FileTree → (names : List String) → Option FileTree
  | _, t, [] => some t
  | above, t, name :: names =>
    if !t.isDirectory then none
    else if name == "" || name == "." then follow above t names
    else if name == ".." then
      match above with
      | parent :: above => follow above parent names
      | [] => none
    else
      match t.entry? name with
      | some below => follow (t :: above) below names
      | none => none

/-- What a path leads to. A path from the root of all files leads out of the tree. -/
def find? (t : FileTree) (path : String) : Option FileTree :=
  if path.isEmpty || path.startsWith "/" then none else t.follow [] (pathNames path)

def join (path name : String) : String :=
  if path.endsWith "/" then path ++ name else path ++ "/" ++ name

mutual

/-- All files of a tree with their paths, in the order of the names on the way. -/
def files (path : String) : FileTree → List (String × Option String)
  | .file text => [(path, text)]
  | .directory entries => (filesOf path entries).mergeSort (fun a b => a.1 ≤ b.1) |>.flatMap (·.2)
termination_by structural t => t

def filesOf (path : String) :
    List (String × FileTree) → List (String × List (String × Option String))
  | [] => []
  | entry :: entries => entryFiles path entry :: filesOf path entries
termination_by structural entries => entries

def entryFiles (path : String) : String × FileTree → String × List (String × Option String)
  | (name, t) => (name, files (join path name) t)
termination_by structural entry => entry

end

/-! ## Extensions -/

/-- The part of a name behind its last dot; a dot in front of everything does not count. -/
def extension? (name : String) : Option String :=
  match (name.splitOn ".").reverse with
  | last :: _ :: more => if name.startsWith "." && more.isEmpty then none else some last
  | _ => none

def lastName (path : String) : String :=
  ((pathNames path).filter fun n => n != "" && n != ".").getLast?.getD ""

def pathExtension? (path : String) : Option String := extension? (lastName path)

end FileTree

end BlockGraph
