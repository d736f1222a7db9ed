/-
Paths to files.  A path is a text of names with slashes between them.  Empty names,
and dots that stand for the same place, do not count, except for a dot at the start.
-/

namespace LineGrammar

namespace Path

/-- Whether a path starts at the root and not in the directory one is in. -/
def isAbsolute (path : String) : Bool :=
  path.toList.head? == some '/'

/-- The names of a text, empty ones too, where some characters of the first name were
read before, the latest first. -/
def namesFrom (read : List Char) : List Char → List String
  | [] => [String.ofList read.reverse]
  | char :: rest =>
      if char = '/' then String.ofList read.reverse :: namesFrom [] rest
      else namesFrom (char :: read) rest

/-- The names of a path, empty ones too. -/
def names (path : String) : List String :=
  namesFrom [] path.toList

def text (names : List String) : String :=
  String.intercalate "/" names

/-- Whether a name stands for the place it stands in, given the names before it. -/
def isIdle (name : String) (before : List String) : Bool :=
  name == "" || (name == "." && !before.isEmpty)

/-- A path and those it lies below, from names with the last one first.  Each ends
with a name that counts, and the root is the last of them. -/
def chain : List String → List String
  | [] => []
  | name :: before =>
      if before.isEmpty && name == "" then ["/"]
      else if isIdle name before then chain before
      else text (name :: before).reverse :: chain before

/-- A path, without what does not count at its end, and the paths that it lies
below. -/
def withParents (path : String) : List String :=
  if path.isEmpty then [] else chain (names path).reverse

/-- The directory that a path lies in, if the path names one. -/
def parent? (path : String) : Option String :=
  (withParents path)[1]?

/-- The name at the end of a path, if it is not a way up. -/
def fileName? (path : String) : Option String := do
  let name ← (names (← (withParents path).head?)).getLast?
  if name = "" ∨ name = "." ∨ name = ".." then none else some name

/-- The part of a path's last name after its last point, which must not be its first
character. -/
def ending? (path : String) : Option String := do
  let reversed := (← fileName? path).toList.reverse
  let before := reversed.dropWhile (· != '.')
  if before.length ≤ 1 then none
  else some (String.ofList (reversed.takeWhile (· != '.')).reverse)

/-- The path of a name in a directory. -/
def join (directory name : String) : String :=
  if directory.isEmpty || directory.toList.getLast? == some '/' then directory ++ name
  else directory ++ "/" ++ name

example : withParents "a//b/./c.png/." = ["a//b/./c.png", "a//b", "a"] := by decide +kernel
example : withParents "./../x" = ["./../x", "./..", "."] := by decide +kernel
example : withParents "//x/" = ["//x", "/"] := by decide +kernel
example : ending? "a.b/.c.png/" = some "png" := by decide +kernel
example : ending? "a/.png" = none := by decide +kernel

end Path

end LineGrammar
