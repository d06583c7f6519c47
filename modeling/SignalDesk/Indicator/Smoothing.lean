import SignalDesk.Bar
import SignalDesk.Scalar

namespace SignalDesk

open Scalar

variable {α : Type} [Scalar α]

/-- One step of exponential smoothing. -/
def blend (weight value previous : α) : α := weight * value + (ofNat 1 - weight) * previous

/-- Smooths on from a previous value. After an undefined value nothing is defined again. -/
def smoothFrom (weight previous : α) : List α → List α
  | [] => []
  | value :: rest =>
    if isUndefined value then undefineds (rest.length + 1)
    else
      let next := blend weight value previous
      next :: smoothFrom weight next rest

/-- Exponential smoothing that starts from the mean of the first `period` values. -/
def smoothFromMean (weight : α) (period : Nat) (values : List α) : List α :=
  if period = 0 ∨ values.length < period ∨ (values.take period).any isUndefined then
    undefineds values.length
  else
    let seed := mean (values.take period)
    undefineds (period - 1) ++ seed :: smoothFrom weight seed (values.drop period)

/-- The weight of a new value is twice the one of a mean over one more value. -/
def ema (period : Nat) (values : List α) : List α :=
  smoothFromMean (ofNat 2 / (ofNat period + ofNat 1)) period values

/-- Smoothing with the weight of a mean, from the first defined value on. -/
def wilderSmooth (period : Nat) (values : List α) : List α :=
  undefineds (values.takeWhile isUndefined).length ++
    smoothFromMean (ofNat 1 / ofNat period) period (values.dropWhile isUndefined)

/-- How far the price moved over one bar, from the close before it. -/
def trueRange (previous bar : Bar α) : α :=
  if isUndefined bar.high || isUndefined bar.low || isUndefined previous.closing then undefined
  else
    larger (larger (bar.high - bar.low) (abs (bar.high - previous.closing)))
      (abs (bar.low - previous.closing))

/-- The first bar has no close before it. -/
def trueRanges : List (Bar α) → List α
  | [] => []
  | first :: rest => undefined :: List.zipWith trueRange (first :: rest) rest

theorem trueRanges_getElem?_zero (bars : List (Bar α)) :
    (trueRanges bars)[0]? = bars.head?.map fun _ => undefined := by
  cases bars <;> rfl

/-- A true range belongs to the later one of its two bars. -/
theorem trueRanges_getElem? {bars : List (Bar α)} {i : Nat} {previous bar : Bar α}
    (before : bars[i]? = some previous) (here : bars[i + 1]? = some bar) :
    (trueRanges bars)[i + 1]? = some (trueRange previous bar) := by
  cases bars with
  | nil => cases here
  | cons first rest =>
    rw [List.getElem?_cons_succ] at here
    simp only [trueRanges, List.getElem?_cons_succ, List.getElem?_zipWith, before, here]

def atr (period : Nat) (bars : List (Bar α)) : List α := wilderSmooth period (trueRanges bars)

/-- The share of the gains in all moves, in percent; fifty where nothing moved. -/
def relativeStrength (gain loss : α) : α :=
  if same loss (ofNat 0) && same gain (ofNat 0) then ofNat 50
  else if same loss (ofNat 0) then ofNat 100
  else if same gain (ofNat 0) then ofNat 0
  else ofNat 100 - ofNat 100 / (ofNat 1 + gain / loss)

/-- The average gain and loss after each further change, up to the first undefined one. -/
def averagesFrom (weight gain loss : α) : List α → List (α × α)
  | [] => []
  | change :: rest =>
    if isUndefined change then []
    else
      let gain := blend weight (larger change (ofNat 0)) gain
      let loss := blend weight (larger (-change) (ofNat 0)) loss
      (gain, loss) :: averagesFrom weight gain loss rest

def changes (closes : List α) : List α := List.zipWith (· - ·) closes.tail closes

/-- A change leads from a close to the next one. -/
theorem changes_getElem? {closes : List α} {i : Nat} {previous close : α} (before : closes[i]? = some previous)
    (here : closes[i + 1]? = some close) : (changes closes)[i]? = some (close - previous) := by
  simp only [changes, List.getElem?_zipWith, List.getElem?_tail, here, before]

/-- The average gains and losses from bar `period` on, as far as they are defined. -/
def strengthAverages (period : Nat) (closes : List α) : List (α × α) :=
  let seed := (changes closes).take period
  if period = 0 ∨ closes.length < period + 1 ∨ seed.any isUndefined then []
  else
    let gain := sum (seed.filter fun c => less (ofNat 0) c) / ofNat period
    let loss := -sum (seed.filter fun c => less c (ofNat 0)) / ofNat period
    (gain, loss) :: averagesFrom (ofNat 1 / ofNat period) gain loss ((changes closes).drop period)

def rsi (period : Nat) (closes : List α) : List α :=
  let averages := strengthAverages period closes
  if averages.isEmpty then undefineds closes.length
  else
    undefineds period ++ averages.map (fun average => relativeStrength average.1 average.2) ++
      undefineds (closes.length - period - averages.length)

end SignalDesk
