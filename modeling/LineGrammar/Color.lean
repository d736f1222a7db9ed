/-
Colors with four 8-bit channels: hexadecimal text and linear interpolation.
-/
import LineGrammar.Number.Hexadecimal
import LineGrammar.Number.Single

namespace LineGrammar

/-- A color with an opacity; alpha zero is invisible. -/
structure Color where
  red : UInt8
  green : UInt8
  blue : UInt8
  alpha : UInt8
deriving DecidableEq, Repr, Inhabited

namespace Color

/-- The opaque color of three channels. -/
def solid (red green blue : UInt8) : Color :=
  ⟨red, green, blue, 255⟩

def white : Color := solid 255 255 255

def black : Color := solid 0 0 0

def transparent : Color := ⟨0, 0, 0, 0⟩

/-- An invisible color is never drawn, whatever its other channels are. -/
def isTransparent (color : Color) : Bool :=
  color.alpha == 0

/-- A channel is two digits; a plus sign may stand in place of the first. -/
def channel? (high low : Char) : Option UInt8 := do
  let upper ← if high = '+' then some 0 else Hexadecimal.value? high
  let lower ← Hexadecimal.value? low
  return UInt8.ofNat (16 * upper + lower)

/-- The color of six digits, which is opaque, or of eight. -/
def ofDigits? : List Char → Option Color
  | [r₁, r₂, g₁, g₂, b₁, b₂] => do
      return solid (← channel? r₁ r₂) (← channel? g₁ g₂) (← channel? b₁ b₂)
  | [r₁, r₂, g₁, g₂, b₁, b₂, a₁, a₂] => do
      return ⟨← channel? r₁ r₂, ← channel? g₁ g₂, ← channel? b₁ b₂, ← channel? a₁ a₂⟩
  | _ => none

/-- Read a color as digits after at most one number sign. -/
def ofHex? (text : String) : Option Color :=
  match text.toList with
  | '#' :: digits => ofDigits? digits
  | digits => ofDigits? digits

/-- All four channels as eight digits. -/
def toHex (color : Color) : String :=
  String.ofList ([color.red, color.green, color.blue, color.alpha].flatMap fun channel =>
    Hexadecimal.digits 2 channel.toNat)

/-- The byte at parameter `t` on the way between two channels. -/
def mixChannel (t : Float32) (first last : UInt8) : UInt8 :=
  Single.toByte (first.toFloat32 + (last.toFloat32 - first.toFloat32) * t)

/-- The color at parameter `t` between two colors, each channel on its own.  The
parameter is clamped to the unit interval first. -/
def lerp (first last : Color) (t : Float32) : Color :=
  let t := Single.clampUnit t
  ⟨mixChannel t first.red last.red, mixChannel t first.green last.green,
    mixChannel t first.blue last.blue, mixChannel t first.alpha last.alpha⟩

theorem ofDigits?_eq_none_of_length {digits : List Char}
    (hsix : digits.length ≠ 6) (height : digits.length ≠ 8) :
    ofDigits? digits = none := by
  unfold ofDigits?
  split <;> simp_all

example : ofHex? "#ff8000" = some (solid 255 128 0) := by decide +kernel
example : ofHex? "##ff800" = none := by decide +kernel
example : (solid 1 35 254).toHex = "0123feff" := by decide +kernel
example : black.lerp white 0.5 = solid 128 128 128 := by decide +kernel
example : black.lerp white 7 = white := by decide +kernel

end Color

end LineGrammar
