/-!
# Shortest decimals

The text of a floating-point number is the decimal with the fewest digits that reads back as the
same number; of several with equally few digits it is the nearest one. The search is exact: a finite
number is `m * 2 ^ q`, the reals that round to it form an interval, and for each count of digits the
two neighbours of the number on that decimal grid are tested against the interval.
-/

namespace ScriptCompiler.Decimal

/-- The decimal `0.d₁d₂… * 10 ^ exponent`, given by its digits without leading or trailing zeros. -/
structure Digits where
  digits : List Nat
  exponent : Int
deriving DecidableEq, Repr

/-- A rational interval around a value, over one denominator. `closed` tells whether the ends belong
to it. -/
structure Around where
  low : Nat
  value : Nat
  high : Nat
  denominator : Nat
  closed : Bool

/-- The reals that round to `m * 2 ^ q`. Below a power of two the neighbours are twice as close. -/
def Around.ofBinary (m : Nat) (q : Int) (isPower : Bool) : Around :=
  let down := if isPower then 1 else 2
  let scale := Nat.pow 2 (q - 2).toNat
  { low := (4 * m - down) * scale
    value := 4 * m * scale
    high := (4 * m + 2) * scale
    denominator := Nat.pow 2 (2 - q).toNat
    closed := m % 2 == 0 }

/-- Whether `d / scale` lies in the interval, for a decimal `d` on a grid of unit `unit / scale`. -/
def Around.contains (a : Around) (numerator scale : Nat) : Bool :=
  let x := numerator * a.denominator
  if a.closed then a.low * scale ≤ x && x ≤ a.high * scale
  else a.low * scale < x && x < a.high * scale

def digitsOf (n : Nat) : List Nat := (Nat.toDigits 10 n).map (fun c => c.toNat - '0'.toNat)

/-- The least `p` with `value < 10 ^ p`, searched upwards from below every double. -/
def magnitude (a : Around) : Nat → Int → Int
  | 0, p => p
  | fuel + 1, p =>
    let up := Nat.pow 10 p.toNat
    let down := Nat.pow 10 (-p).toNat
    if a.value * down < up * a.denominator then p else magnitude a fuel (p + 1)

/-- The neighbour of the value on the grid of `count` digits that lies in the interval, the nearer
one if both do. -/
def onGrid? (a : Around) (p : Int) (count : Nat) : Option Nat :=
  let shift := p - Int.ofNat count
  let unit := Nat.pow 10 shift.toNat
  let scale := Nat.pow 10 (-shift).toNat
  let below := a.value * scale / (a.denominator * unit)
  let above := below + 1
  let lowOk := 0 < below && a.contains (below * unit) scale
  let highOk := a.contains (above * unit) scale
  if lowOk && highOk then
    let toLow := a.value * scale - below * unit * a.denominator
    let toHigh := above * unit * a.denominator - a.value * scale
    if toLow < toHigh || (toLow == toHigh && below % 2 == 0) then some below else some above
  else if lowOk then some below
  else if highOk then some above
  else none

/-- The first grid with a hit, from `count` digits on. Seventeen digits always suffice for a
double. -/
def firstGrid (a : Around) (p : Int) : Nat → Nat → Nat × Nat
  | 0, count => (a.value / a.denominator, count)
  | fuel + 1, count =>
    match onGrid? a p count with
    | some n => (n, count)
    | none => firstGrid a p fuel (count + 1)

def dropTrailingZeros (ds : List Nat) : List Nat := (ds.reverse.dropWhile (· == 0)).reverse

/-- The shortest decimal of the positive number `m * 2 ^ q`. -/
def shortest (m : Nat) (q : Int) (isPower : Bool) : Digits :=
  let a := Around.ofBinary m q isPower
  let p := magnitude a 700 (-330)
  let (n, count) := firstGrid a p 17 1
  let ds := digitsOf n
  { digits := dropTrailingZeros ds, exponent := p + (Int.ofNat ds.length - Int.ofNat count) }

def text (ds : List Nat) : String := String.ofList (ds.map Nat.digitChar)

/-- Positional notation with at least one decimal. -/
def positional (d : Digits) : String :=
  if d.exponent ≤ 0 then "0." ++ text (List.replicate (-d.exponent).toNat 0 ++ d.digits)
  else
    let whole := d.exponent.toNat
    let front := d.digits.take whole
    let back := d.digits.drop whole
    text (front ++ List.replicate (whole - front.length) 0) ++ "."
      ++ (if back.isEmpty then "0" else text back)

/-- One digit before the point, then a signed power of ten. -/
def scientific (d : Digits) : String :=
  let power := d.exponent - 1
  let mantissa := match d.digits with
    | [] => "0"
    | [x] => text [x]
    | x :: rest => text [x] ++ "." ++ text rest
  mantissa ++ (if power < 0 then "e-" else "e+") ++ toString power.natAbs

/-- Positional from `1e-5` up to below `1e16`, scientific outside. -/
def render (d : Digits) : String :=
  if -4 ≤ d.exponent && d.exponent ≤ 16 then positional d else scientific d

/-- The leading bit of a significand, which is not stored. -/
def hiddenBit : Nat := 0x10000000000000

def ofBits (bits : Nat) : String :=
  let negative := 0x8000000000000000 ≤ bits
  let biased := bits / hiddenBit % 2048
  let fraction := bits % hiddenBit
  let sign := if negative then "-" else ""
  if biased = 2047 then
    if fraction = 0 then sign ++ "Infinity" else "NaN"
  else if biased = 0 then
    if fraction = 0 then sign ++ "0.0" else sign ++ render (shortest fraction (-1074) false)
  else
    sign ++ render
      (shortest (fraction + hiddenBit) (Int.ofNat biased - 1075) (fraction = 0 && 1 < biased))

def ofFloat (x : Float) : String := ofBits x.toBits.toNat

end ScriptCompiler.Decimal
