import SignalDesk.Scalar

namespace SignalDesk

open Scalar

/-- The `period` values up to index `i`. -/
def windowAt {α : Type} (period : Nat) (values : List α) (i : Nat) : List α :=
  (values.drop (i + 1 - period)).take period

/-- A value from each full window without an undefined entry; undefined elsewhere. A gap is
forgotten once it has left the window. -/
def rolling {α : Type} [Scalar α] (period : Nat) (f : List α → α) (values : List α) : List α :=
  (List.range values.length).map fun i =>
    if period = 0 ∨ i + 1 < period then undefined
    else
      let window := windowAt period values i
      if window.any isUndefined then undefined else f window

def sma {α : Type} [Scalar α] (period : Nat) (values : List α) : List α :=
  rolling period mean values

inductive Band where
  | upper
  | lower
deriving Repr, DecidableEq

/-- The mean of a window, moved by a multiple of its standard deviation. -/
def bollingerValue (band : Band) (multiplier : Float) (window : List Float) : Float :=
  let average := mean window
  let deviation := (mean (window.map fun value => (value - average) * (value - average))).sqrt
  match band with
  | .upper => average + multiplier * deviation
  | .lower => average - multiplier * deviation

def bollinger (band : Band) (period : Nat) (multiplier : Float) (values : List Float) : List Float :=
  rolling period (bollingerValue band multiplier) values

/-- The greatest value of a window, or the least. -/
def donchianValue (band : Band) (window : List Float) : Float :=
  match band with
  | .upper => window.foldl larger (-1.0 / 0.0)
  | .lower => window.foldl smaller (1.0 / 0.0)

def donchian (band : Band) (period : Nat) (values : List Float) : List Float :=
  rolling period (donchianValue band) values

end SignalDesk
