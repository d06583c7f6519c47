import SignalDesk.Decimal.Shortest

namespace SignalDesk

/-- Numbers outside `plainFrom ≤ e ≤ plainTo`, for the exponent `e` of the first digit, are written
with an exponent. -/
structure ExponentRule where
  plainFrom : Int
  plainTo : Int
  /-- a positive exponent carries its sign -/
  plusSign : Bool

/-- The decisions that a written double leaves open once its digits are chosen. -/
structure NumberStyle where
  tie : Tie
  /-- whole numbers end in `.0` -/
  pointZero : Bool
  exponent : Option ExponentRule
  undefined : String

namespace NumberStyle

/-- Numbers in messages and indicator names have no exponent and no empty fraction. -/
def message : NumberStyle where
  tie := .up
  pointZero := false
  exponent := none
  undefined := "NaN"

/-- Numbers in JSON show that they are no integers. -/
def json : NumberStyle where
  tie := .even
  pointZero := true
  exponent := some ⟨-5, 15, true⟩
  undefined := "null"

/-- Numbers in TOML show that they are no integers and have no exponent. -/
def toml : NumberStyle where
  tie := .up
  pointZero := true
  exponent := none
  undefined := "nan"

/-- Numbers in a dump of a registry entry. -/
def dump : NumberStyle where
  tie := .up
  pointZero := true
  exponent := some ⟨-4, 15, false⟩
  undefined := "NaN"

/-- Digits with the point set `exponent` places from their end. -/
def positional (style : NumberStyle) (d : Decimal) : String :=
  let digits := Nat.toDigits 10 d.digits
  if 0 ≤ d.exponent then
    String.ofList (digits ++ List.replicate d.exponent.toNat '0') ++ if style.pointZero then ".0" else ""
  else
    let places := (-d.exponent).toNat
    let padded := List.replicate (places + 1 - digits.length) '0' ++ digits
    String.ofList (padded.take (padded.length - places)) ++ "." ++
      String.ofList (padded.drop (padded.length - places))

/-- One digit before the point, the others behind it, and the exponent of the first. -/
def scientific (rule : ExponentRule) (d : Decimal) : String :=
  let fraction := (Nat.toDigits 10 d.digits).drop 1
  String.ofList ((Nat.toDigits 10 d.digits).take 1) ++
    (if fraction.isEmpty then "" else "." ++ String.ofList fraction) ++ "e" ++
    (if d.leading < 0 then "-" else if rule.plusSign then "+" else "") ++ toString d.leading.natAbs

def magnitude (style : NumberStyle) (d : Decimal) : String :=
  match style.exponent with
  | none => style.positional d
  | some rule =>
    if d.digits = 0 ∨ (rule.plainFrom ≤ d.leading ∧ d.leading ≤ rule.plainTo) then style.positional d
    else scientific rule d

/-- The sign of a zero is written too. -/
def render (style : NumberStyle) (x : Float) : String :=
  if x.isNaN then style.undefined
  else
    (if x.toBits >>> 63 == 1 then "-" else "") ++
      if x.isInf then "inf" else style.magnitude (Decimal.shortest style.tie x)

end NumberStyle

/-- The text of a double in messages and names. -/
def showNumber (x : Float) : String := NumberStyle.message.render x

end SignalDesk
