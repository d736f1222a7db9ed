/-
A studio makes the drawings of one scene.  Before it derives anything it predicts
the size of the drawing, and refuses what lies beyond its limits.
-/
import LineGrammar.Growth.Estimate
import LineGrammar.Limits
import LineGrammar.Scene.Basic

namespace LineGrammar

/-- What limits apply to. -/
inductive Measured where
  | symbols
  | vertices
deriving DecidableEq, Repr

def Measured.describe : Measured → String
  | symbols => "symbols"
  | vertices => "vertices"

/-- Why a drawing was not made. -/
inductive StudioFault where
  | core (fault : Fault)
  | overflow (iterations : Nat)
  | tooLarge (what : Measured) (count limit iterations : Nat)
deriving DecidableEq, Repr

def StudioFault.message : StudioFault → String
  | core fault => fault.message
  | overflow iterations => s!"{iterations} iterations overflow the size estimate"
  | tooLarge what count limit iterations =>
      s!"{iterations} iterations would produce up to {count} {what.describe}, "
        ++ s!"limit is {limit}"

/-- A painted line, its box, and the prediction of its size. -/
structure Drawing where
  stream : Stream
  box : Box
  estimate : Estimate
  iterations : Nat

/-- A scene under work: the grammar with what it has derived, the turtle's table and
settings, the depth to derive to, and the painter. -/
structure Studio where
  system : LSystem
  table : Interpretation
  settings : TurtleSettings
  iterations : Nat
  painter : PainterPlan
  limits : Limits

/-- Refuse a prediction beyond the limits.  Symbols are looked at before
vertices. -/
def Limits.check (limits : Limits) (iterations : Nat) (estimate : Estimate) :
    Except StudioFault Estimate :=
  if estimate.overflow then .error (.overflow iterations)
  else if limits.maxSymbols < estimate.symbols then
    .error (.tooLarge .symbols estimate.symbols limits.maxSymbols iterations)
  else if limits.maxVertices < estimate.vertices then
    .error (.tooLarge .vertices estimate.vertices limits.maxVertices iterations)
  else .ok estimate

namespace Studio

def ofScene (scene : Scene) (limits : Limits) : Studio :=
  ⟨.ofGrammar scene.grammar, scene.table, scene.parameters.settings,
    scene.parameters.iterations, scene.painter, limits⟩

/-- The prediction for the depth at hand. -/
def estimate (studio : Studio) : Except StudioFault Estimate :=
  (studio.system.grammar.estimate studio.table studio.iterations).mapError .core

/-- The prediction, if it stays within the limits. -/
def checkSize (studio : Studio) : Except StudioFault Estimate := do
  studio.limits.check studio.iterations (← studio.estimate)

def ready (studio : Studio) (tools : Painter.Tools) (chance : Painter.Path → Draws) :
    Painter Draws :=
  studio.painter.resolve tools.seeded chance

/-- Walk the line of a derived word and paint it within its own box. -/
def paintWord (studio : Studio) (tools : Painter.Tools) (chance : Painter.Path → Draws)
    (derivation : Derivation) : Except StudioFault (Stream × Box) := do
  let line ← (Turtle.draw studio.settings studio.table derivation.word
    derivation.counts).mapError .core
  let box := line.box
  let stream ← ((studio.ready tools chance).paintWithin tools.search box line).mapError .core
  return (stream, box)

/-- What comes of deriving the word, walking the line and painting it, and the studio
afterwards.  Whatever was derived is remembered, also if no drawing comes of it. -/
def attempt (studio : Studio) (tools : Painter.Tools) (chance : Painter.Path → Draws) :
    Except StudioFault Drawing × Studio :=
  match studio.checkSize with
  | .error fault => (.error fault, studio)
  | .ok estimate =>
      let (derivation, system) := studio.system.produce studio.iterations
      let drawing := (studio.paintWord tools chance derivation).map fun (stream, box) =>
        ⟨stream, box, estimate, studio.iterations⟩
      (drawing, { studio with system })

/-- A drawing together with the studio after it. -/
def render (studio : Studio) (tools : Painter.Tools) (chance : Painter.Path → Draws) :
    Except StudioFault (Drawing × Studio) :=
  match studio.attempt tools chance with
  | (.ok drawing, after) => .ok (drawing, after)
  | (.error fault, _) => .error fault

/-- Paint a drawing anew, within the box it has. -/
def repaint (studio : Studio) (tools : Painter.Tools) (chance : Painter.Path → Draws)
    (drawing : Drawing) : Except StudioFault Drawing := do
  let stream ← ((studio.ready tools chance).paintWithin tools.search drawing.box
    drawing.stream).mapError .core
  return { drawing with stream }

def setStart (studio : Studio) (start : Word) : Studio :=
  { studio with system := studio.system.setStart start }

def addRule (studio : Studio) (symbol : Char) (successor : Word) : Studio :=
  { studio with system := studio.system.addRule symbol successor }

def addOrder (studio : Studio) (symbol : Char) (order : Order) : Studio :=
  { studio with table := studio.table.insert symbol order }

/-- Take away the order of a symbol, which is the result. -/
def removeOrder (studio : Studio) (symbol : Char) : Except Fault (Order × Studio) :=
  match studio.table.get? symbol with
  | none => .error (.missingRule symbol)
  | some order => .ok (order, { studio with table := studio.table.erase symbol })

end Studio

/-- A prediction within the limits is handed on as it is. -/
theorem Limits.check_eq_ok_iff (limits : Limits) (iterations : Nat)
    (estimate result : Estimate) :
    limits.check iterations estimate = .ok result ↔
      result = estimate ∧ estimate.overflow = false ∧
        estimate.symbols ≤ limits.maxSymbols ∧ estimate.vertices ≤ limits.maxVertices := by
  unfold Limits.check
  split
  · simp_all
  · split
    · simp; omega
    · split
      · simp; omega
      · simp only [Except.ok.injEq, eq_comm (a := result)]
        constructor
        · intro h
          exact ⟨h, by simpa using ‹¬estimate.overflow = true›, by omega, by omega⟩
        · exact fun h => h.1

end LineGrammar
