/-
What a command needs from the place where it runs.
-/
import LineGrammar.Painter.Basic
import LineGrammar.Raster

namespace LineGrammar

/-- What a file holds. -/
inductive Content where
  | text (text : String)
  | image (image : Image)

/-- What comes of making a directory: it is there now, what it should lie in is
missing, or it cannot be made. -/
inductive Making where
  | present
  | orphaned
  | refused
deriving DecidableEq, Repr

/-- The files, the time, the chance and the tools of the place where a command runs.  Paths
are taken from the directory it runs in.  Writing makes or replaces a file; appending
makes it or adds to its end. -/
structure Host (m : Type → Type) where
  readText : String → m (Option String)
  write : String → Content → m Bool
  append : String → String → m Bool
  makeDirectory : String → m Making
  time : m String
  chance : m (Painter.Path → Draws)
  tools : Painter.Tools

end LineGrammar
