namespace SignalDesk

/-- The number `digits * 10 ^ exponent`. -/
structure Decimal where
  digits : Nat
  exponent : Int
deriving Repr, DecidableEq

/-- How many decimal digits are written. -/
def Decimal.length (d : Decimal) : Nat := (Nat.toDigits 10 d.digits).length

/-- The decimal exponent of the first digit. -/
def Decimal.leading (d : Decimal) : Int := d.exponent + d.length - 1

/-- The magnitude `value / unit` of a finite double between the ends of the reals that round to it.
The ends themselves round to it exactly when the significand is even. -/
structure RoundingInterval where
  lower : Nat
  value : Nat
  upper : Nat
  unit : Nat
  closed : Bool

namespace RoundingInterval

/-- The interval of `significand * 2 ^ exponent`. Just above a power of two the doubles below lie
twice as dense, so the lower end is nearer. -/
def ofBinary (significand : Nat) (exponent : Int) (narrowBelow : Bool) : RoundingInterval :=
  let scale := 1 <<< exponent.toNat
  { lower := (4 * significand - if narrowBelow then 1 else 2) * scale
    value := 4 * significand * scale
    upper := (4 * significand + 2) * scale
    unit := 4 <<< (-exponent).toNat
    closed := significand % 2 == 0 }

/-- The interval of the magnitude of a finite double. -/
def ofFloat (x : Float) : RoundingInterval :=
  let bits := x.toBits.toNat
  let fraction : Nat := bits % (1 <<< 52)
  let biased : Nat := (bits >>> 52) % (1 <<< 11)
  if biased = 0 then ofBinary fraction (-1074) false
  else ofBinary ((1 <<< 52) + fraction) ((biased : Int) - 1075) (fraction == 0 && biased != 1)

/-- Whether a decimal rounds to the double. -/
def contains (i : RoundingInterval) (d : Decimal) : Bool :=
  let point := d.digits * Nat.pow 10 d.exponent.toNat * i.unit
  let scale := Nat.pow 10 (-d.exponent).toNat
  if i.closed then i.lower * scale ≤ point && point ≤ i.upper * scale
  else i.lower * scale < point && point < i.upper * scale

/-- The greatest point of the grid of multiples of `10 ^ exponent` that is not above the value. -/
def floorOn (i : RoundingInterval) (exponent : Int) : Decimal :=
  ⟨i.value * Nat.pow 10 (-exponent).toNat / (i.unit * Nat.pow 10 exponent.toNat), exponent⟩

/-- Compares the value with the midpoint between a grid point and the next one. -/
def compareMidpoint (i : RoundingInterval) (d : Decimal) : Ordering :=
  compare (2 * i.value * Nat.pow 10 (-d.exponent).toNat)
    ((2 * d.digits + 1) * (Nat.pow 10 d.exponent.toNat * i.unit))

end RoundingInterval

/-- Which of two equally near decimals is written. -/
inductive Tie where
  | even
  | up
deriving DecidableEq

/-- Of the two grid points around the value the one that rounds to it; the nearer one if both do. -/
def RoundingInterval.nearestOn (i : RoundingInterval) (tie : Tie) (exponent : Int) : Option Decimal :=
  let below := i.floorOn exponent
  let above := ⟨below.digits + 1, exponent⟩
  match i.contains below, i.contains above with
  | true, true =>
    match i.compareMidpoint below, tie with
    | .lt, _ => some below
    | .gt, _ => some above
    | .eq, .up => some above
    | .eq, .even => some (if below.digits % 2 == 0 then below else above)
  | true, false => some below
  | false, true => some above
  | false, false => none

/-- An exponent whose power of ten lies above the interval; the fewest digits are on one of the
grids below it. -/
def RoundingInterval.topExponent (i : RoundingInterval) : Int :=
  ((Nat.log2 i.value : Int) - Nat.log2 i.unit + 1) * 30103 / 100000 + 2

/-- The fewest digits that read back as the magnitude of a finite double, and of those the nearest
to it. Seventeen digits suffice, so one of the tried grids is fine enough; a value that none of them
meets would be written exactly. -/
def Decimal.shortest (tie : Tie) (x : Float) : Decimal :=
  let interval := RoundingInterval.ofFloat x
  if interval.value = 0 then ⟨0, 0⟩
  else
    let top := interval.topExponent
    match (List.range 24).findSome? fun (n : Nat) => interval.nearestOn tie (top - n) with
    | some d => d
    | none => interval.floorOn (-1076)

end SignalDesk
