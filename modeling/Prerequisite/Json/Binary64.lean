/-
Numbers of the format binary64, and their texts.

A binary64 is given by its bits.  Its text has the fewest digits that read back as the same number;
among several such numerals the one nearest to the number is taken.  Both questions are decided in
whole numbers: a number is `m * 2 ^ q`, the numbers that round to it form an interval, and a grid of
decimals is searched from coarse to fine for a point inside it.  If a grid has a point in the
interval, then one of the number's two neighbours on the grid is such a point.

The other direction takes a numeral as a whole number below `2 ^ 64` and a power of ten, and rounds
twice: the whole number to a binary64, and its product with the power, or its quotient by it.
-/
namespace Prerequisite.Binary64

/-! ### A number as a fraction of powers of two -/

/-- The magnitude `m * 2 ^ q` of some bits, and whether its exponent is the least one of its
significand's size, so that the numbers below lie closer than those above. -/
structure Magnitude where
  /-- The significand. -/
  m : Nat
  /-- The exponent of two. -/
  q : Int
  /-- Whether the gap below is half the gap above. -/
  tight : Bool
  deriving DecidableEq, Repr

/-- Whether the sign bit is set. -/
def isNegative (bits : UInt64) : Bool := bits >>> 63 == 1

/-- The magnitude of a finite number. -/
def magnitude (bits : UInt64) : Magnitude :=
  let fraction := (bits &&& 0xFFFFFFFFFFFFF).toNat
  let exponent := (bits >>> 52 &&& 0x7FF).toNat
  if exponent = 0 then ⟨fraction, -1074, false⟩
  else ⟨0x10000000000000 + fraction, (exponent : Int) - 1075, fraction == 0 && exponent != 1⟩

/-! ### The fewest digits -/

/-- A power, or one if the exponent is negative: what a comparison has to multiply with on the side
where `base ^ e` stands. -/
def factor (base : Nat) (e : Int) : Nat := base.pow e.toNat

/-- Whether `d * 10 ^ k` rounds to the number: it lies in the interval of the numbers nearer to
`m * 2 ^ q` than to a neighbour, ends included when `m` is even.  All sides are multiplied by
the same number, which makes them whole. -/
def readsBack (x : Magnitude) (d : Nat) (k : Int) : Bool :=
  let point := 4 * d * factor 10 k * factor 2 (-x.q)
  let unit := factor 2 x.q * factor 10 (-k)
  let low := (4 * x.m - (if x.tight then 1 else 2)) * unit
  let high := (4 * x.m + 2) * unit
  if x.m % 2 = 0 then low ≤ point && point ≤ high else low < point && point < high

/-- The distance of `d * 10 ^ k` from the number, in the same unit for all `d`. -/
def distance (x : Magnitude) (d : Nat) (k : Int) : Nat :=
  let point := d * factor 10 k * factor 2 (-x.q)
  let value := x.m * factor 2 x.q * factor 10 (-k)
  (point - value) + (value - point)

/-- The point of the grid `10 ^ k` just below the number. -/
def below (x : Magnitude) (k : Int) : Nat :=
  x.m * factor 2 x.q * factor 10 (-k) / (factor 2 (-x.q) * factor 10 k)

/-- The neighbour on the grid `10 ^ k` that reads back, if there is one; of two the nearer, and
of two equally near the even one. -/
def onGrid (x : Magnitude) (k : Int) : Option Nat :=
  let d := below x k
  match readsBack x d k && d != 0, readsBack x (d + 1) k with
  | true, true =>
      if distance x d k < distance x (d + 1) k then some d
      else if distance x (d + 1) k < distance x d k then some (d + 1)
      else if d % 2 = 0 then some d else some (d + 1)
  | true, false => some d
  | false, true => some (d + 1)
  | false, false => none

/-- The first grid with a hit, from `10 ^ k` on to finer ones. -/
def search (x : Magnitude) (k : Int) : Nat → Nat × Int
  | 0 => (below x k, k)
  | steps + 1 =>
      match onGrid x k with
      | some d => (d, k)
      | none => search x (k - 1) steps

/-- Takes zeros off the end of a numeral. -/
def stripZeros (d : Nat) (k : Int) : Nat → Nat × Int
  | 0 => (d, k)
  | steps + 1 => if d % 10 = 0 then stripZeros (d / 10) (k + 1) steps else (d, k)

/-- The fewest digits that read back, as a whole number and the power of ten of its last digit.
No number of the format reaches `10 ^ 309`, and the least ones lie above `10 ^ -324`. -/
def shortest (x : Magnitude) : Nat × Int :=
  let (d, k) := search x 309 650
  stripZeros d k 20

/-! ### The text -/

/-- Where the text of a number changes from positional notation to an exponent: up to this many
digits before the point, and down to this many zeros after it. -/
structure Layout where
  /-- The most digits before the point. -/
  mostWhole : Int
  /-- The most zeros between the point and the first digit. -/
  mostZeros : Int

/-- Numbers from `0.00001` up to `10 ^ 16` are written positionally. -/
def layout : Layout := ⟨16, 4⟩

/-- The text of a numeral `d * 10 ^ k`.  A whole number keeps one zero after its point, and every
exponent has a sign. -/
def render (lay : Layout) (d : Nat) (k : Int) : String :=
  let digits := Nat.toDigits 10 d
  let count : Int := digits.length
  let point := count + k
  String.ofList <|
    if 0 ≤ k ∧ point ≤ lay.mostWhole then
      digits ++ List.replicate k.toNat '0' ++ ['.', '0']
    else if 0 < point ∧ point ≤ lay.mostWhole then
      digits.take point.toNat ++ '.' :: digits.drop point.toNat
    else if -lay.mostZeros ≤ point ∧ point ≤ 0 then
      '0' :: '.' :: List.replicate (-point).toNat '0' ++ digits
    else
      let exponent := point - 1
      let sign := if exponent < 0 then '-' else '+'
      let tail := 'e' :: sign :: Nat.toDigits 10 exponent.natAbs
      match digits with
      | [c] => c :: tail
      | c :: cs => c :: '.' :: cs ++ tail
      | [] => tail

/-- **The text of a finite number.** -/
def text (bits : UInt64) : String :=
  let x := magnitude bits
  let body := if x.m = 0 then "0.0" else let (d, k) := shortest x; render layout d k
  if isNegative bits then "-" ++ body else body

/-! ### From a numeral to a number -/

/-- The power of ten nearest to `10 ^ k`. -/
def power (k : Nat) : Float := Float.ofScientific 1 false k

/-- Divides by a power of ten, in steps that stay in range. -/
def shrink (f : Float) (k : Nat) : Float :=
  if k ≤ 308 then f / power k
  else if f == 0 then f
  else shrink (f / power 308) (k - 308)
termination_by k

/-- The bits of a whole number times a power of ten, or nothing if it is out of range. -/
def ofNumeral (negative : Bool) (significand : UInt64) (exponent : Int) : Option UInt64 :=
  let f := significand.toFloat
  let scaled :=
    if exponent < 0 then some (shrink f exponent.natAbs)
    else if exponent ≤ 308 then
      let g := f * power exponent.natAbs
      if g.isInf then none else some g
    else if f == 0 then some f
    else none
  scaled.map fun g => (if negative then -g else g).toBits

end Prerequisite.Binary64
