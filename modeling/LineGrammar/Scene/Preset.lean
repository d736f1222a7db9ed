/-
Well-known drawings, ready to be made.
-/
import LineGrammar.Scene.Basic

namespace LineGrammar

/-- The drawings that come with the program. -/
inductive Preset where
  | dragon
  | koch
  | sierpinski
  | hilbert
  | peano
  | gosper
  | plant
deriving DecidableEq, Repr

namespace Preset

def all : List Preset :=
  [dragon, koch, sierpinski, hilbert, peano, gosper, plant]

def name : Preset → String
  | dragon => "dragon"
  | koch => "koch"
  | sierpinski => "sierpinski"
  | hilbert => "hilbert"
  | peano => "peano"
  | gosper => "gosper"
  | plant => "plant"

/-- A letter of the alphabet in lower case; other characters stay. -/
def lower (char : Char) : Char :=
  if 'A' ≤ char ∧ char ≤ 'Z' then Char.ofNat (char.toNat + 32) else char

/-- The preset with a name, in upper or lower case. -/
def ofName? (name : String) : Option Preset :=
  all.find? fun preset => preset.name.toList == name.toList.map lower

def description : Preset → String
  | dragon => "Heighway dragon: F → F+G, G → F-G, 90°"
  | koch => "Koch snowflake: F--F--F, F → F+F--F+F, 60°"
  | sierpinski => "Sierpinski arrowhead: F → G-F-G, G → F+G+F, 60°"
  | hilbert => "Hilbert curve: A → -BF+AFA+FB-, B → +AF-BFB-FA+, 90°"
  | peano => "Peano curve: F → F+F-F-F-F+F+F+F-F, 90°"
  | gosper => "Gosper flowsnake: A → A-B--B+A++AA+B-, B → +A-BB--B-A++A+B, 60°"
  | plant => "Fractal plant: X → F+[[X]-X]-F[-FX]+X, F → FF, 25°"

/-- The default table with some more symbols that draw. -/
def drawing (symbols : List Char) : Option Interpretation :=
  some (.ofList (Interpretation.defaultOrders ++ symbols.map fun symbol => (symbol, .goForward)))

def turning (startAngle turnAngle : Float) (iterations : Nat) : Parameters :=
  { Parameters.default with startAngle, turnAngle, iterations }

/-- Five colors around the circle of hues. -/
def rainbow : Generator :=
  let ends := LinearGradient.between (.solid 255 0 0) (.solid 160 0 255)
  let gradient := ((ends.addKey (.solid 255 200 0) 0.25).addKey (.solid 0 255 0) 0.5).addKey
    (.solid 0 0 255) 0.75
  .linear gradient

/-- From the brown of wood to light green, in steps. -/
def greens : Generator :=
  let first := Color.solid 90 60 20
  let last := Color.solid 150 230 90
  match DiscreteGradient.ofColors
      [first, .solid 60 100 30, .solid 40 140 40, .solid 80 190 60, last] with
  | .ok gradient => .discrete gradient
  | .error _ => .between first last

/-- The point in the middle of a box. -/
def middle : Point := ⟨0.5, 0.5⟩

/-- Half a turn divided by two. -/
def quarterTurn : Float32 := Float32.ofBits 0x3fc90fdb

def scene (preset : Preset) : Scene :=
  match preset with
  | dragon =>
      { name := preset.name
        start := "F"
        rules := .ofList [('F', "F+G"), ('G', "F-G")]
        flagged := "F"
        interpretation := drawing ['G']
        parameters := turning 0 90 14
        painter := .leaf (.sequential 1) (.between (.solid 20 40 160) (.solid 240 80 40)) }
  | koch =>
      { name := preset.name
        start := "F--F--F"
        rules := .ofList [('F', "F+F--F+F")]
        flagged := "F"
        interpretation := none
        parameters := turning 0 60 5
        painter := .leaf (.radial middle) (.between .white (.solid 30 90 200)) }
  | sierpinski =>
      { name := preset.name
        start := "F"
        rules := .ofList [('F', "G-F-G"), ('G', "F+G+F")]
        flagged := "F"
        interpretation := drawing ['G']
        parameters := turning 0 60 9
        painter := .leaf (.linear quarterTurn middle)
          (.between (.solid 200 30 30) (.solid 250 210 40)) }
  | hilbert =>
      { name := preset.name
        start := "A"
        rules := .ofList [('A', "-BF+AFA+FB-"), ('B', "+AF-BFB-FA+")]
        flagged := "AB"
        interpretation := none
        parameters := turning 0 90 6
        painter := .leaf (.sequential 4) rainbow }
  | peano =>
      { name := preset.name
        start := "F"
        rules := .ofList [('F', "F+F-F-F-F+F+F+F-F")]
        flagged := "F"
        interpretation := none
        parameters := turning 0 90 4
        painter := .leaf (.blockRandom 9 (some 9)) rainbow }
  | gosper =>
      { name := preset.name
        start := "A"
        rules := .ofList [('A', "A-B--B+A++AA+B-"), ('B', "+A-BB--B-A++A+B")]
        flagged := "AB"
        interpretation := drawing ['A', 'B']
        parameters := turning 0 60 4
        painter := .composite (.leaf (.linear 0 middle) .default)
          [.leaf (.sequential 2) (.between (.solid 0 60 120) (.solid 0 200 200)),
            .leaf (.radial middle) (.between (.solid 120 0 60) (.solid 250 140 0))] }
  | plant =>
      { name := preset.name
        start := "X"
        rules := .ofList [('X', "F+[[X]-X]-F[-FX]+X"), ('F', "FF")]
        flagged := "X"
        interpretation := none
        parameters := turning 65 25 6
        painter := .leaf .iteration greens }

theorem ofName?_name (preset : Preset) : ofName? preset.name = some preset := by
  cases preset <;> decide +kernel

end Preset

end LineGrammar
