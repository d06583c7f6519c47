import SignalDesk.Decimal.Shortest

namespace SignalDesk

/-- The nearest double. Beyond the range of the doubles no power of ten is computed. -/
def Decimal.toFloat (d : Decimal) : Float :=
  if d.digits = 0 then 0.0
  else if 310 < d.leading then 1.0 / 0.0
  else if d.leading < -330 then 0.0
  else Float.ofScientific d.digits (decide (d.exponent < 0)) d.exponent.natAbs

def digitsValue (base : Nat) (digits : List Nat) : Nat := digits.foldl (fun n d => n * base + d) 0

/-- The value of a digit in a base up to sixteen. -/
def digitValue? (base : Nat) (c : Char) : Option Nat :=
  let value :=
    if '0' ≤ c ∧ c ≤ '9' then some (c.toNat - '0'.toNat)
    else if 'a' ≤ c ∧ c ≤ 'f' then some (c.toNat - 'a'.toNat + 10)
    else if 'A' ≤ c ∧ c ≤ 'F' then some (c.toNat - 'A'.toNat + 10)
    else none
  value.filter (· < base)

/-- The leading digits of a text and what follows them. -/
def takeDigits (base : Nat) : List Char → List Nat × List Char
  | [] => ([], [])
  | c :: rest =>
    match digitValue? base c with
    | some d => let (ds, after) := takeDigits base rest; (d :: ds, after)
    | none => ([], c :: rest)

/-- A number as written: sign, whole digits, digits after a point and an exponent, where present. -/
structure NumberText where
  negative : Bool
  whole : List Nat
  fraction : Option (List Nat)
  exponent : Option Int
deriving Repr

namespace NumberText

def toFloat (n : NumberText) : Float :=
  let fraction := n.fraction.getD []
  let magnitude := Decimal.toFloat
    ⟨digitsValue 10 (n.whole ++ fraction), n.exponent.getD 0 - fraction.length⟩
  if n.negative then -magnitude else magnitude

def toInt (n : NumberText) : Int :=
  let magnitude : Int := digitsValue 10 n.whole
  if n.negative then -magnitude else magnitude

/-- Written without point and exponent. -/
def isWhole (n : NumberText) : Bool := n.fraction.isNone && n.exponent.isNone

end NumberText

end SignalDesk
