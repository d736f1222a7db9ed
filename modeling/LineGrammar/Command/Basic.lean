/-
What the program can be told to do, and the ways in which that can fail.
-/
import LineGrammar.Studio

namespace LineGrammar

/-- Where a scene comes from. -/
inductive SceneSource where
  | preset (name : String)
  | file (path : String)
  | standard
deriving DecidableEq, Repr

/-- A scene, and the depth to derive it to in place of its own. -/
structure Selection where
  source : SceneSource
  iterations : Option Nat
deriving DecidableEq, Repr

inductive Command where
  | render (selection : Selection) (output : String) (size : Nat) (background : String)
  | dump (selection : Selection) (output : String)
  | estimate (selection : Selection)
  | produce (selection : Selection) (counts : Bool)
  | scene (selection : Selection) (output : String)
  | list
deriving DecidableEq, Repr

/-- Why a task was not done.  The last three leave the program no way to go on: a
variable's value that no environment can hold, a log that cannot be opened, and an
image that no memory can hold. -/
inductive CommandFault where
  | logDirectory (path : String)
  | background (text : String)
  | unknownPreset (name : String)
  | unreadable (path : String)
  | studio (fault : StudioFault)
  | unwritable (path : String)
  | unstorable (name : String)
  | log (path : String)
  | imageSize (size : Nat)
deriving DecidableEq, Repr

def CommandFault.message : CommandFault → String
  | logDirectory path => s!"failed to create log directory {path}"
  | background text => s!"Invalid background color: {text}"
  | unknownPreset name => s!"Unknown preset: {name} (try `list`)"
  | unreadable path => s!"failed to load {path}"
  | studio fault => fault.message
  | unwritable path => s!"failed to write {path}"
  | unstorable name => s!"the value of {name} holds a zero character"
  | log path => s!"failed to open {path}"
  | imageSize size => s!"no memory holds {size} rows of {size} pixels"

def CommandFault.exitCode : CommandFault → UInt8
  | unstorable _ | log _ | imageSize _ => 101
  | logDirectory _ | background _ | unknownPreset _ | unreadable _ | studio _ | unwritable _ => 1

end LineGrammar
