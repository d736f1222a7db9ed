/-
Where painters get their colors from: a single color or a gradient.
-/
import LineGrammar.Gradient.Discrete
import LineGrammar.Gradient.Linear

namespace LineGrammar

/-- A color for each scalar of the unit interval. -/
inductive Generator where
  | constant (color : Color)
  | linear (gradient : LinearGradient)
  | discrete (gradient : DiscreteGradient)
deriving BEq

namespace Generator

def default : Generator := .constant .black

def between (first last : Color) : Generator :=
  .linear (.between first last)

/-- The color for a scalar, which is clamped to the unit interval, given a search among the
keys of a linear gradient.  Only a gradient that lacks a key asked for has none. -/
def color? (generator : Generator) (search : Search LinearKey) (f : Float32) : Option Color :=
  match generator with
  | constant color => some color
  | linear gradient => gradient.color? search f
  | discrete gradient => gradient.color? f

/-- The color for a scalar; a missing one is invisible. -/
def color (generator : Generator) (search : Search LinearKey) (f : Float32) : Color :=
  (generator.color? search f).getD .transparent

end Generator

end LineGrammar
