/-
The program: its arguments, its surroundings and its exit codes.
-/
import LineGrammar.Command.Program
import LineGrammar.Png
import LineGrammar.Random
import Std.Time.Format

namespace LineGrammar

def Content.bytes : Content → ByteArray
  | .text body => body.toUTF8
  | .image picture => Png.encode picture

def succeeds (action : IO Unit) : IO Bool := do
  try
    action
    return true
  catch _ => return false

def readText (path : String) : IO (Option String) := do
  try
    return some (← IO.FS.readFile path)
  catch _ => return none

def append (path text : String) : IO Unit := do
  let file ← IO.FS.Handle.mk path .append
  file.putStr text

/-- Make a directory.  One that is there already leads to itself by `.`. -/
def makeDirectory (path : String) : IO Making := do
  try
    IO.FS.createDir path
    return .present
  catch fault =>
    match fault with
    | .noFileOrDirectory .. => return .orphaned
    | _ =>
        if ← succeeds (discard (IO.FS.realPath (path ++ "/."))) then return .present
        else return .refused

/-- The directory and the clock of the process. -/
def processHost : Host IO where
  readText := readText
  write path content := succeeds (IO.FS.writeBinFile path content.bytes)
  append path text := succeeds (append path text)
  makeDirectory := makeDirectory
  time := do return (← Std.Time.DateTime.now).toISO8601String
  chance := do
    let seed ← IO.rand 0 0xffffffffffffffff
    return fun path => Random.draws
      (path.foldl (fun seed branch => 31 * seed + UInt64.ofNat branch + 1) (UInt64.ofNat seed))
  tools := .standard

/-- A directory and the ones above it, given by their names. -/
def directories : List String → List String
  | [] => []
  | name :: above => String.intercalate "/" (name :: above).reverse :: directories above

/-- The first of some directories' files that set variables. -/
def findEnvFile : List String → IO (Option String)
  | [] => return none
  | directory :: above => do
      match ← readText (directory ++ "/.env") with
      | some text => return some text
      | none => findEnvFile above

/-- The values of those variables that matter. -/
def readEnvironment (names : List String) : IO Environment := do
  let entries ← names.mapM fun name => do
    return (← IO.getEnv name).map fun value => (name, value)
  return entries.filterMap id

def usage : String :=
  Program.lines
    ["Procedural line drawings from L-systems", "",
      "Usage: linegrammar <COMMAND>", "",
      "Commands:",
      "  render    Render a scene to PNG",
      "  dump      Dump the painted vertex stream as JSON",
      "  estimate  Print size estimates for iterations 0..=n",
      "  produce   Print the produced string",
      "  scene     Write the resolved scene as a YAML file",
      "  list      List built-in presets", "",
      "Options:",
      "  -p, --preset <NAME>   -s, --scene <FILE>   -n, --iterations <N>",
      "  -o, --output <FILE>   --size <PIXELS>      --background <COLOR>",
      "  --recursion           -h, --help"]

end LineGrammar

open LineGrammar in
def main (arguments : List String) : IO UInt32 := do
  let here ← IO.currentDir
  let envFile ← findEnvFile (directories (here.toString.splitOn "/").reverse)
  let assignments := (envFile.map EnvFile.read).getD []
  let known ← readEnvironment (Limits.variableNames ++ EnvFile.mentions assignments)
  match ← Program.run processHost arguments known envFile with
  | .done output =>
      IO.print output
      return 0
  | .failed fault =>
      IO.eprintln s!"Error: {fault.message}"
      return fault.exitCode.toUInt32
  | .help =>
      IO.print usage
      return 0
  | .refused =>
      IO.eprint usage
      return 2
