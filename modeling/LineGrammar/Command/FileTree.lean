/-
Directories and files in memory, where commands can run without a disk.
-/
import LineGrammar.Command.Host
import LineGrammar.Command.Path

namespace LineGrammar

/-- What stands at a place. -/
inductive FileTree.Entry where
  | directory
  | file (content : Content)

/-- A place, by the names that lead to it from the root, the last one first. -/
abbrev FileTree.Place := List String

/-- What stands at places, where later entries are older, and the directory that a
command runs in. -/
structure FileTree where
  home : FileTree.Place
  entries : List (FileTree.Place × FileTree.Entry)

namespace FileTree

/-- The directories on the way to a place and at it. -/
def directoriesTo : Place → List (Place × Entry)
  | [] => []
  | name :: above => (name :: above, .directory) :: directoriesTo above

/-- The tree with nothing but the directory that a command runs in. -/
def bare (home : Place) : FileTree :=
  ⟨home, directoriesTo home⟩

/-- What stands at a place; the root is always there. -/
def find? (tree : FileTree) (place : Place) : Option Entry :=
  match place with
  | [] => some .directory
  | place => tree.entries.lookup place

def insert (tree : FileTree) (place : Place) (entry : Entry) : FileTree :=
  { tree with entries := (place, entry) :: tree.entries }

/-- The greatest number of bytes in a name. -/
def maxName : Nat := 255

/-- The greatest number of bytes in a path. -/
def maxPath : Nat := 4095

/-- Why a path leads nowhere: a directory on it is missing, or it cannot be followed
at all. -/
inductive Obstacle where
  | missing
  | blocked
deriving DecidableEq, Repr

/-- The directory that names lead to from another one. -/
def walk (tree : FileTree) : Place → List String → Except Obstacle Place
  | place, [] => .ok place
  | place, name :: names =>
      if name = "" ∨ name = "." then walk tree place names
      else if name = ".." then walk tree place.tail names
      else if maxName < name.utf8ByteSize then .error .blocked
      else
        match tree.find? (name :: place) with
        | some .directory => walk tree (name :: place) names
        | some (.file _) => .error .blocked
        | none => .error .missing

/-- The last name of a path and the directory it is looked up in.  A slash after the
name says that it is a directory's. -/
structure Target where
  directory : Place
  name : String
  closed : Bool

/-- Whether the name leads from one directory to another without being looked up. -/
def Target.isStep (target : Target) : Bool :=
  target.name == "" || target.name == "." || target.name == ".."

def Target.place (target : Target) : Place :=
  target.name :: target.directory

/-- Where a path leads; the names before its last one have to be directories. -/
def target? (tree : FileTree) (path : String) : Except Obstacle Target := do
  if path.isEmpty then .error .missing
  else if maxPath < path.utf8ByteSize then .error .blocked
  else
    let names := (Path.names path).reverse
    let start := if Path.isAbsolute path then [] else tree.home
    match names.dropWhile (· == "") with
    | [] => return ⟨start, "", true⟩
    | name :: before =>
        return ⟨← tree.walk start before.reverse, name, names.head? == some ""⟩

def entry? (tree : FileTree) (path : String) : Option Entry :=
  match tree.target? path with
  | .error _ => none
  | .ok target =>
      if target.isStep then some .directory
      else
        match tree.find? target.place with
        | some (.file content) => if target.closed then none else some (.file content)
        | entry => entry

def read? (tree : FileTree) (path : String) : Option Content :=
  match tree.entry? path with
  | some (.file content) => some content
  | _ => none

def contains (tree : FileTree) (path : String) : Bool :=
  (tree.entry? path).isSome

/-- The place of a file that is there or can be made. -/
def fileTarget? (tree : FileTree) (path : String) : Option Place :=
  match tree.target? path with
  | .error _ => none
  | .ok target =>
      if target.isStep || target.closed || maxName < target.name.utf8ByteSize then none
      else
        match tree.find? target.place with
        | some .directory => none
        | _ => some target.place

def write? (tree : FileTree) (path : String) (content : Content) : Option FileTree := do
  return tree.insert (← tree.fileTarget? path) (.file content)

def append? (tree : FileTree) (path : String) (text : String) : Option FileTree :=
  match tree.read? path with
  | some (.text before) => tree.write? path (.text (before ++ text))
  | _ => tree.write? path (.text text)

/-- Make a directory in one that is there. -/
def makeDirectory (tree : FileTree) (path : String) : Making × FileTree :=
  match tree.target? path with
  | .error .missing => (.orphaned, tree)
  | .error .blocked => (.refused, tree)
  | .ok target =>
      if target.isStep then (.present, tree)
      else
        match tree.find? target.place with
        | some .directory => (.present, tree)
        | some (.file _) => (.refused, tree)
        | none =>
            if maxName < target.name.utf8ByteSize then (.refused, tree)
            else (.present, tree.insert target.place .directory)

/-- Make a change if it is possible, and tell whether it was. -/
def attempt (change : FileTree → Option FileTree) : StateM FileTree Bool := do
  match change (← get) with
  | some tree => do
      set tree
      return true
  | none => return false

/-- A place whose files are those of a tree. -/
def host (time : String) (chance : Painter.Path → Draws) (tools : Painter.Tools) :
    Host (StateM FileTree) where
  readText path := do
    match (← get).read? path with
    | some (.text text) => return some text
    | _ => return none
  write path content := attempt (·.write? path content)
  append path text := attempt (·.append? path text)
  makeDirectory path := modifyGet (·.makeDirectory path)
  time := return time
  chance := return chance
  tools

end FileTree

end LineGrammar
