/-
Doing the tasks of the program.
-/
import LineGrammar.Command.Arguments
import LineGrammar.Command.Host
import LineGrammar.Command.Path
import LineGrammar.Command.SizeTable
import LineGrammar.Document.Json
import LineGrammar.Dump
import LineGrammar.EnvFile
import LineGrammar.Scene.File
import LineGrammar.Scene.Preset

namespace LineGrammar

/-- The kinds of images that the end of a file's name can announce. -/
inductive ImageKind where
  | png
  | other
deriving DecidableEq, Repr

namespace ImageKind

def pngEndings : List String :=
  ["png", "apng"]

def otherEndings : List String :=
  ["avif", "jpg", "jpeg", "jfif", "gif", "webp", "tif", "tiff", "tga", "dds", "bmp", "ico",
    "hdr", "exr", "pbm", "pam", "ppm", "pgm", "pnm", "ff", "qoi"]

/-- The kind of image a path announces, in upper or lower case. -/
def ofPath? (path : String) : Option ImageKind := do
  let ending := (← Path.ending? path).map Char.toLower
  if pngEndings.contains ending then some .png
  else if otherEndings.contains ending then some .other
  else none

end ImageKind

/-- How the program ends: with a text for the standard output, with a fault, with
help on its arguments, or because of arguments that make no sense. -/
inductive Ending where
  | done (output : String)
  | failed (fault : CommandFault)
  | help
  | refused
deriving DecidableEq, Repr

namespace Program

variable {m : Type → Type} [Monad m]

/-- A step that can fail. -/
abbrev Task (m : Type → Type) := ExceptT CommandFault m

def lines (texts : List String) : String :=
  String.join (texts.map (· ++ "\n"))

def readScene (host : Host m) (path : String) : Task m Scene := do
  match (← host.readText path).bind Scene.read? with
  | some scene => return scene
  | none => throw (.unreadable path)

/-- The scene of a selection. -/
def select (host : Host m) (selection : Selection) : Task m Scene := do
  let scene ←
    match selection.source with
    | .preset name =>
        match Preset.ofName? name with
        | some preset => pure preset.scene
        | none => throw (.unknownPreset name)
    | .file path => readScene host path
    | .standard => pure Preset.dragon.scene
  return (selection.iterations.map scene.withIterations).getD scene

/-- Lift the result of a studio. -/
def ofStudio {A : Type} : Except StudioFault A → Task m A
  | .ok value => return value
  | .error fault => throw (.studio fault)

/-- A file that has to be written. -/
def writeFile (host : Host m) (path : String) (content : Content) : Task m Unit := do
  if ← host.write path content then return
  else throw (.unwritable path)

/-- Make the first of some directories, each of which lies in the next one.  Those
that it needs are made before it, and stay when it cannot be made. -/
def makeChain (host : Host m) : List String → m Bool
  | [] => return true
  | path :: above => do
      match ← host.makeDirectory path with
      | .present => return true
      | .refused => return false
      | .orphaned =>
          if ← makeChain host above then
            return (← host.makeDirectory path) == .present
          else return false

/-- Make a directory and all that it lies in.  The empty path is always there. -/
def makeDirectories (host : Host m) (path : String) : m Bool :=
  match Path.withParents path with
  | [] => return true
  | _ :: above => makeChain host (path :: above)

/-- Draw an image and write it, in directories made for it.  An image that cannot be
written leaves an empty file where its name announces a known kind. -/
def writeImage (host : Host m) (path : String) (drawing : Drawing) (size : Nat)
    (background : Color) : Task m Unit := do
  if let some directory := Path.parent? path then
    if !(← (makeDirectories host directory : m Bool)) then throw (.unwritable path)
  if !Image.fits size then throw (.imageSize size)
  match ImageKind.ofPath? path with
  | none => throw (.unwritable path)
  | some kind =>
      if kind = .png ∧ size ≠ 0 then
        writeFile host path
          (.image (Raster.draw drawing.stream.vertices drawing.box size background))
      else do
        writeFile host path (.text "")
        throw (.unwritable path)

def drawing (host : Host m) (scene : Scene) (limits : Limits) : Task m Drawing := do
  let chance ← host.chance
  let (drawing, _) ← ofStudio ((Studio.ofScene scene limits).render host.tools chance)
  return drawing

/-- Tell what was drawn and where to. -/
def drawnText (scene : Scene) (path : String) (drawing : Drawing) : String :=
  lines [s!"{scene.name} -> {path} ({drawing.stream.size} vertices)"]

def spaced (values : List Nat) : String :=
  String.intercalate " " (values.map toString)

def derivationText (counts : Bool) (derivation : Derivation) : String :=
  lines (String.ofList derivation.word ::
    if counts then [spaced derivation.counts, s!"max recursion: {derivation.peak}"] else [])

/-- A text moved to the left end of a column. -/
def leftColumn (width : Nat) (text : String) : String :=
  text ++ String.ofList (List.replicate (width - text.length) ' ')

def presetText (preset : Preset) : String :=
  s!"  - {leftColumn 11 preset.name} {preset.description} " ++
    s!"(default n = {preset.scene.parameters.iterations})"

def listText : String :=
  lines ([s!"Available presets ({Preset.all.length}):", ""] ++ Preset.all.map presetText)

/-- Do a task; the result is what to print. -/
def perform (host : Host m) (limits : Limits) : Command → Task m String
  | .render selection output size background => do
      match Color.ofHex? background with
      | none => throw (.background background)
      | some color =>
          let scene ← select host selection
          let drawing ← drawing host scene limits
          writeImage host output drawing size color
          return drawnText scene output drawing
  | .dump selection output => do
      let scene ← select host selection
      let drawing ← drawing host scene limits
      let time ← host.time
      writeFile host output (.text (Json.write (drawing.toValue scene.name time)))
      return drawnText scene output drawing
  | .estimate selection => do
      let scene ← select host selection
      match SizeTable.rows scene limits with
      | .ok rows => return lines (SizeTable.text scene.name rows)
      | .error fault => throw (.studio (.core fault))
  | .produce selection counts => do
      let scene ← select host selection
      let studio := Studio.ofScene scene limits
      let _ ← ofStudio studio.checkSize
      return derivationText counts (studio.system.produce studio.iterations).1
  | .scene selection output => do
      let scene ← select host selection
      writeFile host output (.text scene.write)
      return lines [s!"{scene.name} -> {output}"]
  | .list => return listText

/-- The log of the day that a time lies in. -/
def logPath (directory time : String) : String :=
  Path.join directory ("grammar_studio.log." ++ String.ofList (time.toList.take 10))

/-- Note in the log that the program runs.  There is one log for each day. -/
def openLog (host : Host m) (directory : String) : Task m Unit := do
  if !(← (makeDirectories host directory : m Bool)) then throw (.logDirectory directory)
  let time ← host.time
  let path := logPath directory time
  if !(← host.append path s!"{time} started\n") then throw (.log path)

/-- Open the log, then do the task. -/
def performLogged (host : Host m) (limits : Limits) (command : Command) : Task m String := do
  openLog host limits.logDirectory
  perform host limits command

/-- The whole program, given its arguments, the variables around it and the text of
the file that sets more of them. -/
def run (host : Host m) (arguments : List String) (known : Environment)
    (envFile : Option String) : m Ending := do
  match Command.parse arguments with
  | .help => return .help
  | .refused => return .refused
  | .run command =>
      match EnvFile.extend known ((envFile.map EnvFile.read).getD []) with
      | .error name => return .failed (.unstorable name)
      | .ok environment =>
          let limits := Limits.ofVariables fun name => environment.lookup name
          match ← (performLogged host limits command).run with
          | .ok output => return .done output
          | .error fault => return .failed fault

end Program

end LineGrammar
