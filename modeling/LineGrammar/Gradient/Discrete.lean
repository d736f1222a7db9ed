/-
Gradients in steps.  Keys sit at whole numbers from zero up, no two at the same
one, and a palette holds one color for each number down to the last key.  A key
that finds its place taken pushes the others up.
-/
import LineGrammar.Change
import LineGrammar.Color
import LineGrammar.Gradient.Keys
import LineGrammar.Sorting

namespace LineGrammar

/-- A color at a step. -/
structure DiscreteKey where
  color : Color
  index : Nat
deriving DecidableEq, Repr

/-- A gradient in steps, by its keys and the palette they span. -/
structure DiscreteGradient where
  keys : List DiscreteKey
  palette : Array Color
deriving DecidableEq, Repr

namespace DiscreteGradient

/-- The step after one, if a palette may be that long. -/
def bump (index : Nat) : Except Fault Nat :=
  if index < largestPaletteIndex then .ok (index + 1)
  else .error (.gradientTooLarge (index + 1))

/-- Keys ordered by index, equal ones as they were. -/
def inOrder (keys : List DiscreteKey) : List DiscreteKey :=
  Sorting.sort (fun a b => a.index ≤ b.index) keys

/-- Move each key that does not lie above the one before it right behind that. -/
def spread (previous : Nat) : List DiscreteKey → Except Fault (List DiscreteKey)
  | [] => .ok []
  | key :: rest => do
      let index ← if key.index ≤ previous then bump previous else .ok key.index
      return { key with index } :: (← spread index rest)

/-- Refuse keys of which the last lies beyond the longest palette. -/
def checkLast (keys : List DiscreteKey) : Except Fault (List DiscreteKey) :=
  match keys.getLast? with
  | some last =>
      if largestPaletteIndex < last.index then .error (.gradientTooLarge last.index)
      else .ok keys
  | none => .ok keys

/-- Keys in order, the first at zero and each of the others above the one before
it. -/
def normalize (keys : List DiscreteKey) : Except Fault (List DiscreteKey) :=
  match inOrder keys with
  | [] => .ok []
  | first :: rest => do
      let rest ← spread 0 rest
      checkLast ({ first with index := 0 } :: rest)

/-- The colors from one key up to the next, which is left out. -/
def steps (first last : DiscreteKey) : List Color :=
  let count := last.index - first.index
  (List.range count).map fun step =>
    first.color.lerp last.color (Single.ofCount step / Single.ofCount count)

/-- One color for each number from the first key to the last. -/
def expand : List DiscreteKey → List Color
  | [] => []
  | [last] => [last.color]
  | key :: next :: rest => steps key next ++ expand (next :: rest)

def withKeys (keys : List DiscreteKey) : DiscreteGradient :=
  ⟨keys, (expand keys).toArray⟩

/-- The gradient of at least two keys. -/
def ofKeys (keys : List DiscreteKey) : Except Fault DiscreteGradient :=
  if keys.length < 2 then .error .gradientTooShort
  else (normalize keys).map withKeys

/-- The gradient of some colors without steps between them. -/
def ofColors (colors : List Color) : Except Fault DiscreteGradient :=
  ofKeys (colors.zipIdx.map fun (color, index) => ⟨color, index⟩)

/-- Move a key up by one if it lies at `index` or above. -/
def makeRoom (index : Nat) (key : DiscreteKey) : Except Fault DiscreteKey :=
  if index ≤ key.index then do return { key with index := ← bump key.index } else .ok key

/-- The keys with room at an index: if it is taken, they have moved up from there on. -/
def vacate (index : Nat) (keys : List DiscreteKey) : Except Fault (List DiscreteKey) :=
  if keys.any fun key => key.index == index then keys.mapM (makeRoom index) else .ok keys

/-- Give a gradient the palette that its keys span. -/
def respan : Change DiscreteGradient Unit :=
  modify fun gradient => { gradient with palette := (expand gradient.keys).toArray }

/-- Insert a key.  If its place is taken, the key there and all above it move up
by one.  All this is done to a copy of the keys, which takes their place in the end. -/
def insertKey (color : Color) (index : Nat) : Change DiscreteGradient Unit := do
  let copy ← vacate index (← get).keys
  let keys ← normalize (copy ++ [⟨color, index⟩])
  modify fun gradient => { gradient with keys }
  respan

/-- Remove a key, which is the result.  The last two keys stay. -/
def removeKey (slot : Nat) : Change DiscreteGradient DiscreteKey := do
  let key ← Keys.inSlot (← get).keys slot
  Keys.checkSpare (← get).keys
  let keys ← normalize ((← get).keys.eraseIdx slot)
  modify fun gradient => { gradient with keys }
  respan
  return key

def setColor (slot : Nat) (color : Color) : Change DiscreteGradient Unit := do
  let key ← Keys.inSlot (← get).keys slot
  modify fun gradient => { gradient with keys := gradient.keys.set slot { key with color } }
  respan

/-- The color of the step in which `f` lies, of as many equal steps of the unit
interval as there are colors. -/
def color? (gradient : DiscreteGradient) (f : Float32) : Option Color :=
  let count := gradient.palette.size
  let step := (Single.clampUnit f * Single.ofCount count).toUInt64.toNat
  gradient.palette[min step (count - 1)]?

@[simp] theorem length_steps (first last : DiscreteKey) :
    (steps first last).length = last.index - first.index := by
  simp [steps]

example : (ofKeys [⟨.black, 7⟩, ⟨.white, 7⟩, ⟨.black, 4⟩]).toOption.map
    (fun gradient => gradient.keys.map (·.index)) = some [0, 7, 8] := by
  decide +kernel

end DiscreteGradient

end LineGrammar
