/-
Decimal notation of double-precision numbers.  Reading rounds to the nearest
double.  Writing takes the fewest digits that read back as the same double.
-/

namespace LineGrammar

/-- The number `digits * 10 ^ exponent`. -/
structure Decimal where
  digits : Nat
  exponent : Int
deriving DecidableEq, Repr

namespace Decimal

def digitsValue (digits : List Char) : Nat :=
  digits.foldl (fun value digit => 10 * value + (digit.toNat - 48)) 0

/-- The decimal with some digits before its point, some after it, and a power of
ten. -/
def ofParts (whole fraction : List Char) (power : Int) : Decimal :=
  ⟨digitsValue (whole ++ fraction), power - fraction.length⟩

/-- The number of decimal digits of a natural number, which is zero for zero. -/
def width (value : Nat) : Nat :=
  if value = 0 then 0 else (Nat.toDigits 10 value).length

/-- The nearest double.  Far outside the range of doubles the digits no longer
matter. -/
def toFloat (decimal : Decimal) : Float :=
  let magnitude : Int := decimal.exponent + width decimal.digits
  if decimal.digits = 0 ∨ magnitude < -400 then 0
  else if 400 < magnitude then Float.ofBits 0x7ff0000000000000
  else
    match decimal.exponent with
    | .ofNat power => Float.ofScientific decimal.digits false power
    | .negSucc power => Float.ofScientific decimal.digits true (power + 1)

/-- An interval of positive rationals around a value, all over one denominator.
The ends belong to it if `closed` is set. -/
structure Around where
  low : Nat
  value : Nat
  high : Nat
  denominator : Nat
  closed : Bool

/-- The rationals that round to a positive finite double, around its value. -/
def Around.ofFloat (x : Float) : Around :=
  let bits := x.toBits.toNat % 0x8000000000000000
  let field := bits / 0x10000000000000
  let fraction := bits % 0x10000000000000
  let mantissa := if field = 0 then fraction else 0x10000000000000 + fraction
  let power : Int := (max field 1 : Nat) - 1077
  let below := if fraction = 0 ∧ 1 < field then 1 else 2
  let scale := 1 <<< power.toNat
  ⟨(4 * mantissa - below) * scale, 4 * mantissa * scale, (4 * mantissa + 2) * scale,
    1 <<< (-power).toNat, mantissa % 2 == 0⟩

/-- Whether a decimal lies in the interval. -/
def Around.contains (around : Around) (decimal : Decimal) : Bool :=
  let left := decimal.digits * Nat.pow 10 decimal.exponent.toNat * around.denominator
  let scale := Nat.pow 10 (-decimal.exponent).toNat
  if around.closed then around.low * scale ≤ left && left ≤ around.high * scale
  else around.low * scale < left && left < around.high * scale

/-- The neighbour on the grid of multiples of `10 ^ exponent` that lies in the
interval; of two, the nearer one, and of equally near ones the even one. -/
def Around.onGrid? (around : Around) (exponent : Int) : Option Decimal :=
  let numerator := around.value * Nat.pow 10 (-exponent).toNat
  let denominator := around.denominator * Nat.pow 10 exponent.toNat
  let below := numerator / denominator
  let rest := 2 * (numerator % denominator)
  let lower : Decimal := ⟨below, exponent⟩
  let upper : Decimal := ⟨below + 1, exponent⟩
  let lowerFirst := rest < denominator || (rest == denominator && below % 2 == 0)
  let (nearer, farther) := if lowerFirst then (lower, upper) else (upper, lower)
  if around.contains nearer then some nearer
  else if around.contains farther then some farther
  else none

/-- The power of ten of the leading digit of a positive fraction. -/
def leadingPower (numerator denominator : Nat) : Int :=
  if denominator ≤ numerator then (width (numerator / denominator) : Int) - 1
  else
    let quotient := denominator / numerator
    let power := width quotient
    if Nat.pow 10 (power - 1) * numerator = denominator then -((power : Int) - 1) else -power

/-- The fewest digits that read back as a positive finite double; seventeen are
always enough. -/
def shortest (x : Float) : Decimal :=
  let around := Around.ofFloat x
  let leading := leadingPower around.value around.denominator
  ((List.range 17).findSome? fun (more : Nat) => around.onGrid? (leading - more)).getD ⟨0, 0⟩

/-- The text of a positive decimal: positional from `10 ^ -5` to below `10 ^ 16`,
otherwise with one digit before the point and a power of ten. -/
def text (decimal : Decimal) : String :=
  let digits := Nat.toDigits 10 decimal.digits
  let leading : Int := decimal.exponent + digits.length - 1
  let dotted (whole fraction : List Char) : String :=
    String.ofList (whole ++ '.' :: (if fraction.isEmpty then ['0'] else fraction))
  if -5 ≤ leading ∧ leading < 16 then
    if leading < 0 then
      dotted ['0'] (List.replicate (-leading - 1).toNat '0' ++ digits)
    else
      let padded := digits ++ List.replicate decimal.exponent.toNat '0'
      dotted (padded.take (leading.toNat + 1)) (padded.drop (leading.toNat + 1))
  else
    dotted (digits.take 1) (digits.drop 1) ++ "e" ++ toString leading

/-- The text of a finite double. -/
def ofFloat (x : Float) : String :=
  let size := x.abs
  let body := if size == 0 then "0.0" else text (shortest size)
  if x.toBits >>> 63 == 1 then "-" ++ body else body

example : ofFloat 0.1 = "0.1" ∧ ofFloat (-2.5) = "-2.5" ∧ ofFloat 100 = "100.0" := by
  decide +kernel
example : ofFloat (Float.ofBits 1) = "5.0e-324" := by decide +kernel
example : ofFloat (0.1 + 0.2) = "0.30000000000000004" := by decide +kernel
example : (toFloat ⟨3, -1⟩).toBits = (0.3 : Float).toBits := by decide +kernel

end Decimal

end LineGrammar
