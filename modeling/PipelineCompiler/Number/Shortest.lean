namespace PipelineCompiler.Number

/-!
# Shortest decimals

A finite float is written with the fewest digits that read back to it; of two such decimals
the nearer one is taken, and of two equally near ones that with the even last digit.

* `Parts`, `Parts.ofFloat` — sign, mantissa and exponent of a finite float, and how they are read
  off the bits;
* `whole?` — the integer that a float is equal to;
* `Interval` — the reals that round to a float, in exact integers;
* `Interval.onGrid?` — the nearest decimal on a grid `10 ^ p` inside the interval;
* `Decimal.shortest` — the first grid with a hit, from one digit to seventeen;
* `Layout`, `render` — where the point and the exponent stand.
-/

/-! ### The parts of a float -/

/-- A finite float as `± mantissa · 2 ^ exponent`. -/
structure Parts where
  negative : Bool
  mantissa : Nat
  exponent : Int
deriving Repr, DecidableEq

/-- Reads sign, mantissa and exponent off the bits of a finite float. -/
def Parts.ofFloat (x : Float) : Parts :=
  let bits : Nat := x.toBits.toNat
  let fraction : Nat := bits % Nat.pow 2 52
  let biased : Nat := bits / Nat.pow 2 52 % Nat.pow 2 11
  let negative := bits / Nat.pow 2 63 == 1
  if biased = 0 then ⟨negative, fraction, -1074⟩
  else ⟨negative, fraction + Nat.pow 2 52, (biased : Int) - 1075⟩

/-- The integer that the parts denote, if they denote one. -/
def Parts.whole? (p : Parts) : Option Int :=
  let divisor := Nat.pow 2 (-p.exponent).toNat
  if p.mantissa % divisor = 0 then
    let magnitude : Int := (p.mantissa / divisor * Nat.pow 2 p.exponent.toNat : Nat)
    some (if p.negative then -magnitude else magnitude)
  else none

/-- The integer that a float is equal to, if there is one. -/
def whole? (x : Float) : Option Int :=
  if x.isNaN || x.isInf then none else (Parts.ofFloat x).whole?

/-! ### Intervals and decimals -/

/-- The reals that round to a positive float, all over one denominator.  The ends belong to it
    when `closed` holds. -/
structure Interval where
  low : Nat
  value : Nat
  high : Nat
  denominator : Nat
  closed : Bool
deriving Repr, DecidableEq

/-- Half a unit to both sides, but only a quarter below a power of two, where the floats below
    lie closer.  Ties round to the even mantissa. -/
def Interval.ofParts (p : Parts) : Interval :=
  let scale := Nat.pow 2 (p.exponent - 2).toNat
  let below := if p.mantissa = Nat.pow 2 52 ∧ p.exponent > -1074 then 1 else 2
  { low := (4 * p.mantissa - below) * scale
    value := 4 * p.mantissa * scale
    high := (4 * p.mantissa + 2) * scale
    denominator := Nat.pow 2 (2 - p.exponent).toNat
    closed := p.mantissa % 2 == 0 }

/-- Whether `digits · 10 ^ power` lies in the interval. -/
def Interval.holds (i : Interval) (digits : Nat) (power : Int) : Bool :=
  let point := digits * Nat.pow 10 power.toNat * i.denominator
  let scale := Nat.pow 10 (-power).toNat
  if i.closed then i.low * scale ≤ point && point ≤ i.high * scale
  else i.low * scale < point && point < i.high * scale

/-- The multiple of `10 ^ power` in the interval that is nearest to the value. -/
def Interval.onGrid? (i : Interval) (power : Int) : Option Nat :=
  let unit := Nat.pow 10 power.toNat * i.denominator
  let value := i.value * Nat.pow 10 (-power).toNat
  let below := value / unit
  let above := below + 1
  match i.holds below power, i.holds above power with
  | false, false => none
  | true, false => some below
  | false, true => some above
  | true, true =>
    let down := value - below * unit
    let up := above * unit - value
    some (if down < up then below else if up < down then above
      else if below % 2 = 0 then below else above)

/-- The number of decimal digits. -/
def digitCount (n : Nat) : Nat := (Nat.toDigits 10 n).length

/-- The power of ten of the first digit of the value. -/
def Interval.magnitude (i : Interval) : Int :=
  let guess : Int := digitCount i.value - digitCount i.denominator
  let reached := i.denominator * Nat.pow 10 guess.toNat ≤ i.value * Nat.pow 10 (-guess).toNat
  if reached then guess else guess - 1

/-- A decimal `0.d₁d₂… · 10 ^ point`, without zeros at its end. -/
structure Decimal where
  digits : List Char
  point : Int
deriving Repr, DecidableEq

/-- The decimal of `digits · 10 ^ power`. -/
def Decimal.ofGrid (digits : Nat) (power : Int) : Decimal :=
  let all := Nat.toDigits 10 digits
  { digits := (all.reverse.dropWhile (· == '0')).reverse
    point := all.length + power }

/-- Tries grids of `count`, `count + 1`, … digits, `tries` of them. -/
def Decimal.search (i : Interval) (magnitude : Int) : (tries count : Nat) → Decimal
  | 0, _ => ofGrid (i.value / i.denominator) 0
  | tries + 1, count =>
    let power := magnitude - count + 1
    match i.onGrid? power with
    | some digits => ofGrid digits power
    | none => search i magnitude tries (count + 1)

/-- The shortest decimal that reads back to a positive float. -/
def Decimal.shortest (p : Parts) : Decimal :=
  let i := Interval.ofParts p
  search i i.magnitude 17 1

/-- Spellings that differ from one text format to another. -/
structure Layout where
  nan : String
  infinity : String
  negativeInfinity : String
  /-- Whether a single digit before an exponent is followed by `.0`. -/
  pointBeforeExponent : Bool

/-- The exponent with its sign and at least two digits. -/
def exponentText (e : Int) : String :=
  let digits := toString e.natAbs
  (if e < 0 then "e-" else "e+") ++ (if digits.length < 2 then "0" ++ digits else digits)

/-- Positional from `0.0001` up to `10 ^ 16`, with an exponent elsewhere; a positional decimal
    always has a digit after its point. -/
def Decimal.render (layout : Layout) (d : Decimal) : String :=
  let count := d.digits.length
  if -4 < d.point ∧ d.point ≤ 16 then
    if d.point ≤ 0 then
      "0." ++ "".pushn '0' (-d.point).toNat ++ String.ofList d.digits
    else
      let whole := d.point.toNat
      if count ≤ whole then
        String.ofList d.digits ++ "".pushn '0' (whole - count) ++ ".0"
      else
        String.ofList (d.digits.take whole) ++ "." ++ String.ofList (d.digits.drop whole)
  else
    let head := String.ofList (d.digits.take 1)
    let tail :=
      if count ≤ 1 then (if layout.pointBeforeExponent then ".0" else "")
      else "." ++ String.ofList (d.digits.drop 1)
    head ++ tail ++ exponentText (d.point - 1)

/-- The text of a float. -/
def render (layout : Layout) (x : Float) : String :=
  if x.isNaN then layout.nan
  else if x.isInf then (if x < 0 then layout.negativeInfinity else layout.infinity)
  else
    let p := Parts.ofFloat x
    let text := if p.mantissa = 0 then "0.0" else (Decimal.shortest p).render layout
    if p.negative then "-" ++ text else text

end PipelineCompiler.Number
