/-
The table of predicted sizes, depth by depth.  It ends with the depth of the scene
or with the first depth whose sizes do not fit.
-/
import LineGrammar.Studio

namespace LineGrammar

/-- The prediction for one depth and whether it lies beyond the limits. -/
structure SizeRow where
  depth : Nat
  estimate : Estimate
  beyond : Bool
deriving DecidableEq, Repr

namespace SizeTable

/-- Whether a prediction lies beyond the limits. -/
def isBeyond (limits : Limits) (estimate : Estimate) : Bool :=
  limits.maxVertices < estimate.vertices || limits.maxSymbols < estimate.symbols

def rowsFrom (grammar : Grammar) (table : Interpretation) (limits : Limits) :
    Nat → Nat → Except Fault (List SizeRow)
  | _, 0 => .ok []
  | depth, more + 1 => do
      let estimate ← grammar.estimate table depth
      let row := ⟨depth, estimate, isBeyond limits estimate⟩
      if estimate.overflow then return [row]
      else return row :: (← rowsFrom grammar table limits (depth + 1) more)

def rows (scene : Scene) (limits : Limits) : Except Fault (List SizeRow) :=
  rowsFrom scene.grammar scene.table limits 0 (scene.parameters.iterations + 1)

/-- A text moved to the right end of a column. -/
def column (width : Nat) (text : String) : String :=
  String.ofList (List.replicate (width - text.length) ' ') ++ text

/-- A line with three columns. -/
def line (depth symbols vertices : String) : String :=
  s!"{column 5 depth} {column 22 symbols} {column 22 vertices}"

def rowText (row : SizeRow) : String :=
  let depth := toString row.depth
  if row.estimate.overflow then line depth "overflow" "overflow"
  else
    line depth (toString row.estimate.symbols) (toString row.estimate.vertices)
      ++ if row.beyond then "  (over limit)" else ""

/-- The lines of the table under its title. -/
def text (name : String) (rows : List SizeRow) : List String :=
  [s!"Size estimates for '{name}':", "", line "n" "symbols" "vertices"] ++ rows.map rowText

end SizeTable

end LineGrammar
