import SignalDesk.Fault
import SignalDesk.Scalar

namespace SignalDesk

/-- The rank of a double in its total order: by the number line, minus zero below zero, and
undefined values beyond the infinities. -/
def totalRank (x : Float) : Int :=
  let bits := x.toBits.toNat
  if bits < (1 <<< 63) then bits else -(bits - (1 <<< 63) : Nat) - 1

def totalLe (x y : Float) : Bool := totalRank x ≤ totalRank y

/-- Where a percentile lies among ascending values: at one of them, or between two neighbours in
proportion. -/
inductive Place where
  | exactly (index : Nat)
  | between (lower upper : Nat) (share : Float)

/-- The place of the `p`-th percentile of `count` values. -/
def percentilePlace (count : Nat) (p : Float) : Place :=
  if count ≤ 1 ∨ p <= 0.0 then .exactly 0
  else if p >= 100.0 then .exactly (count - 1)
  else
    let rank := p / 100.0 * Float.ofNat (count - 1)
    let lower := rank.toUInt64.toNat
    .between lower (min (lower + 1) (count - 1)) (rank - Float.ofNat lower)

/-- The `p`-th percentile of ascending values; there is none of no values. -/
def percentileSorted (sorted : List Float) (p : Float) : Option Float :=
  match percentilePlace sorted.length p with
  | .exactly index => sorted[index]?
  | .between lower upper share => do
    some ((← sorted[lower]?) * (1.0 - share) + (← sorted[upper]?) * share)

/-- What the gate tested and between which bounds. -/
structure GateResult where
  passed : Bool
  minThreshold : Float
  maxThreshold : Float
  testedValue : Float

/-- Percentages in order. -/
def isBand (low high : Float) : Bool :=
  0.0 <= low && low <= 100.0 && 0.0 <= high && high <= 100.0 && !(low > high)

/-- Whether the last volatility lies between two percentiles of all the finite ones. -/
def volatilityGate (series : List Float) (low high : Float) : Except Fault GateResult :=
  if !isBand low high then .error (.invalidParameter (.band none low high))
  else match series.getLast? with
    | none => .error (.insufficientData .emptyVolatility)
    | some tested =>
      if !tested.isFinite then .error (.insufficientData .volatilityNotFinite)
      else
        let sorted := (series.filter Float.isFinite).mergeSort totalLe
        match sorted, percentileSorted sorted low, percentileSorted sorted high with
        | _ :: _ :: _, some minThreshold, some maxThreshold => .ok
          { passed := tested >= minThreshold && tested <= maxThreshold
            minThreshold, maxThreshold, testedValue := tested }
        | sorted, _, _ => .error (.insufficientData (.tooFewVolatilities sorted.length))

end SignalDesk
