namespace SignalDesk

/-- The arithmetic that indicators need: the four operations, comparison and a value for "undefined".
Doubles run; the theory may read the same definitions over exact numbers. -/
class Scalar (α : Type) extends Add α, Sub α, Mul α, Div α, Neg α where
  ofNat : Nat → α
  undefined : α
  isUndefined : α → Bool
  less : α → α → Bool
  abs : α → α

instance : Scalar Float where
  ofNat := Float.ofNat
  undefined := 0.0 / 0.0
  isUndefined := Float.isNaN
  less a b := a < b
  abs := Float.abs

namespace Scalar

variable {α : Type} [Scalar α]

/-- Addition from the left. In the doubles the sum of no values is minus zero. -/
def sum (values : List α) : α := values.foldl (· + ·) (-(ofNat 0))

def mean (values : List α) : α := sum values / ofNat values.length

/-- The greater of two values, the second of two equal ones; an undefined one does not count. -/
def larger (a b : α) : α := if isUndefined b || less b a then a else b

/-- The smaller of two values, the second of two equal ones; an undefined one does not count. -/
def smaller (a b : α) : α := if isUndefined b || less a b then a else b

/-- Neither value is less than the other, and both are defined. -/
def same (a b : α) : Bool := !isUndefined a && !isUndefined b && !less a b && !less b a

def undefineds (n : Nat) : List α := List.replicate n undefined

end Scalar

end SignalDesk
