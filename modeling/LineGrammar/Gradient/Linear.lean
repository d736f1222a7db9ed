/-
Gradients that interpolate between keys at positions in the unit interval.  After
each change the keys are put in order again, the first moves to zero and the last
to one.
-/
import LineGrammar.Change
import LineGrammar.Color
import LineGrammar.Gradient.Keys
import LineGrammar.Gradient.Position
import LineGrammar.Search
import LineGrammar.Sorting

namespace LineGrammar

/-- A color at a position. -/
structure LinearKey where
  color : Color
  position : Position
deriving BEq

/-- A gradient, by its keys from left to right. -/
structure LinearGradient where
  keys : List LinearKey
deriving BEq

namespace LinearGradient

/-- Keys ordered by the rank of their positions, equal ones as they were. -/
def inOrder (keys : List LinearKey) : List LinearKey :=
  Sorting.sort (fun a b => a.position.rank ≤ b.position.rank) keys

def startAtZero : List LinearKey → List LinearKey
  | [] => []
  | first :: rest => { first with position := 0 } :: rest

def endAtOne : List LinearKey → List LinearKey
  | [] => []
  | [last] => [{ last with position := 1 }]
  | key :: next :: rest => key :: endAtOne (next :: rest)

def clampKey (key : LinearKey) : LinearKey :=
  { key with position := key.position.clampUnit }

/-- Put keys in order, fix both ends, and bring the others between them. -/
def normalize (keys : List LinearKey) : LinearGradient :=
  ⟨(endAtOne (startAtZero (inOrder keys))).map clampKey⟩

def between (first last : Color) : LinearGradient :=
  ⟨[⟨first, 0⟩, ⟨last, 1⟩]⟩

/-- The gradient of at least two keys. -/
def ofKeys (keys : List LinearKey) : Except Fault LinearGradient :=
  if keys.length < 2 then .error .gradientTooShort else .ok (normalize keys)

def addKey (gradient : LinearGradient) (color : Color) (position : Position) : LinearGradient :=
  normalize (gradient.keys ++ [⟨color, position⟩])

/-- Remove a key, which is the result.  The last two keys stay. -/
def removeKey (slot : Nat) : Change LinearGradient LinearKey := do
  let key ← Keys.inSlot (← get).keys slot
  Keys.checkSpare (← get).keys
  modify fun gradient => ⟨gradient.keys.eraseIdx slot⟩
  modify fun gradient => normalize gradient.keys
  return key

/-- Recolor a key, which stays where it is. -/
def setColor (slot : Nat) (color : Color) : Change LinearGradient Unit := do
  let key ← Keys.inSlot (← get).keys slot
  modify fun gradient => ⟨gradient.keys.set slot { key with color }⟩

/-- Move a key, which may change its place among the others. -/
def setPosition (slot : Nat) (position : Position) : Change LinearGradient Unit := do
  let key ← Keys.inSlot (← get).keys slot
  modify fun gradient => ⟨gradient.keys.set slot { key with position }⟩
  modify fun gradient => normalize gradient.keys

/-- The color between two neighbouring keys.  Where they coincide it is that of
the right one. -/
def mix (left right : LinearKey) (f : Float32) : Color :=
  let span := right.position.value - left.position.value
  left.color.lerp right.color (if 0 < span then (f - left.position.value) / span else 1)

/-- The color at `f`, clamped to the unit interval: the one between the first key that does
not lie below it, as a search finds it, and the key before.  There is none where the keys are
not there. -/
def color? (gradient : LinearGradient) (search : Search LinearKey) (f : Float32) :
    Option Color :=
  let f := Single.clampUnit f
  let upper := search.find (fun key => key.position.value < f) gradient.keys
  if upper = 0 then gradient.keys[0]?.map (·.color)
  else do
    let left ← gradient.keys[upper - 1]?
    let right ← gradient.keys[upper]?
    return mix left right f

theorem length_endAtOne (keys : List LinearKey) : (endAtOne keys).length = keys.length := by
  fun_induction endAtOne keys <;> simp_all

theorem length_startAtZero (keys : List LinearKey) :
    (startAtZero keys).length = keys.length := by
  cases keys <;> rfl

@[simp] theorem length_normalize (keys : List LinearKey) :
    (normalize keys).keys.length = keys.length := by
  simp [normalize, length_endAtOne, length_startAtZero, inOrder]

example : (between .black .white).color? .halving 0.5 = some (.solid 128 128 128) := by
  decide +kernel

example : (between .black .white).color? .halving (0 / 0) = some .black := by
  decide +kernel

end LinearGradient

end LineGrammar
