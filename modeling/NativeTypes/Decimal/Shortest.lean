/-
NativeTypes.Decimal.Shortest — the fewest decimal digits that read back as a
given binary number.

A finite double is `m · 2^q`. The reals that round to it form an interval
around it, whose ends belong to it when `m` is even. For one digit, two
digits and so on, the two neighbours of the value on that decimal grid are
tried in exact arithmetic; the first grid with a neighbour inside the
interval wins, and of two neighbours inside it the nearer one, the even one
on a tie. Seventeen digits always suffice.
-/
namespace NativeTypes.Decimal

/-- A positive binary number `significand · 2 ^ exponent`. `lowest` marks the least
significand of its binade, below which the neighbours stand twice as close. -/
structure Binary where
  significand : Nat
  exponent : Int
  lowest : Bool

/-- The number `digits · 10 ^ exponent`. -/
structure Scaled where
  digits : Nat
  exponent : Int

/-- The factors `(a, b)` that bring quarters of `2 ^ q` and units of `10 ^ k` to one scale:
`x` quarters are `x · a` and `c` units are `c · b`. -/
def scales (q k : Int) : Nat × Nat :=
  (Nat.pow 2 (q - 2).toNat * Nat.pow 10 (-k).toNat,
    Nat.pow 2 (2 - q).toNat * Nat.pow 10 k.toNat)

/-- The neighbour of `x` on the grid of `10 ^ k` that lies among the reals rounding to `x`. -/
def onGrid? (x : Binary) (k : Int) : Option Nat :=
  let (a, b) := scales x.exponent k
  let middle := 4 * x.significand * a
  let low := (4 * x.significand - (if x.lowest then 1 else 2)) * a
  let high := (4 * x.significand + 2) * a
  let inside (c : Nat) : Bool :=
    if x.significand % 2 == 0 then low ≤ c * b && c * b ≤ high else low < c * b && c * b < high
  let below := middle / b
  let above := below + 1
  match inside below, inside above with
  | true, true =>
    let down := middle - below * b
    let up := above * b - middle
    if down < up || (down == up && below % 2 == 0) then some below else some above
  | true, false => some below
  | false, true => some above
  | false, false => none

/-- The exponent of the first decimal digit, looked for among `bound` places after the point. -/
def leadingExponent (x : Binary) (bound : Nat) : Int :=
  let whole := x.significand * Nat.pow 2 x.exponent.toNat / Nat.pow 2 (-x.exponent).toNat
  if whole > 0 then (Nat.toDigits 10 whole).length - 1
  else
    let scale := Nat.pow 2 (-x.exponent).toNat
    match (List.range bound).find? fun j => scale ≤ x.significand * Nat.pow 10 (j + 1) with
    | some j => -(j + 1 : Int)
    | none => -(bound : Int)

/-- Moves the zeros at the end of `digits` into the exponent, at most `bound` of them. -/
def dropZeros : Nat → Scaled → Scaled
  | 0, d => d
  | bound + 1, d =>
    if d.digits % (10 : Nat) == 0 && d.digits != 0 then
      dropZeros bound ⟨d.digits / 10, d.exponent + 1⟩
    else d

/-- The shortest decimal that reads back as `x`. -/
def shortest (x : Binary) : Scaled :=
  let first : Int := leadingExponent x 400
  let grids := (List.range 17).map fun (n : Nat) => first - (n : Int)
  match grids.findSome? fun k => (onGrid? x k).map fun c => Scaled.mk c k with
  | some d => dropZeros 20 d
  | none => ⟨x.significand, x.exponent⟩

/-- A double taken apart. -/
inductive Parts
  | notANumber
  | infinite (negative : Bool)
  | zero (negative : Bool)
  | finite (negative : Bool) (value : Binary)

/-- The parts of a double: sign, eleven bits of exponent, fifty-two of fraction. -/
def Parts.ofFloat (x : Float) : Parts :=
  let bits := x.toBits.toNat
  let negative := bits / Nat.pow 2 63 == 1
  let biased : Nat := bits / Nat.pow 2 52 % Nat.pow 2 11
  let fraction := bits % Nat.pow 2 52
  if biased == 2047 then (if fraction == 0 then .infinite negative else .notANumber)
  else if biased == 0 then
    if fraction == 0 then .zero negative else .finite negative ⟨fraction, -1074, false⟩
  else
    .finite negative
      ⟨Nat.pow 2 52 + fraction, (biased : Int) - 1075, fraction == 0 && 1 < biased⟩

/-- How decimals are laid out: exponents of the leading digit from `lowest` up to but not
including `highest` are written positionally, all others in exponent form with at least
`exponentDigits` digits. -/
structure Layout where
  lowest : Int
  highest : Int
  exponentDigits : Nat

/-- `n` with zeros in front up to `width` digits. -/
def filled (width n : Nat) : String :=
  let digits := Nat.toDigits 10 n
  String.ofList (List.replicate (width - digits.length) '0' ++ digits)

/-- A positive decimal in the given layout; a point always shows in positional form. -/
def Layout.render (layout : Layout) (d : Scaled) : String :=
  let digits := Nat.toDigits 10 d.digits
  let leading : Int := d.exponent + digits.length - 1
  if layout.lowest ≤ leading && leading < layout.highest then
    if leading < 0 then
      "0." ++ String.ofList (List.replicate (-leading - 1).toNat '0' ++ digits)
    else
      let whole := leading.toNat + 1
      let front := digits.take whole ++ List.replicate (whole - digits.length) '0'
      let back := digits.drop whole
      String.ofList front ++ "." ++ (if back.isEmpty then "0" else String.ofList back)
  else
    let tail := digits.drop 1
    String.ofList (digits.take 1) ++ (if tail.isEmpty then "" else "." ++ String.ofList tail) ++
      "e" ++ (if leading < 0 then "-" else "+") ++ filled layout.exponentDigits leading.natAbs

/-- A double in the given layout. -/
def Layout.renderFloat (layout : Layout) (x : Float) : String :=
  let sign (negative : Bool) := if negative then "-" else ""
  match Parts.ofFloat x with
  | .notANumber => "nan"
  | .infinite negative => sign negative ++ "inf"
  | .zero negative => sign negative ++ "0.0"
  | .finite negative value => sign negative ++ layout.render (shortest value)

end NativeTypes.Decimal
