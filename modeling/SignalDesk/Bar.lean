import SignalDesk.Instant

namespace SignalDesk

/-- The prices and the volume traded over one span of time. -/
structure Bar (α : Type) where
  time : Instant
  opening : α
  high : α
  low : α
  closing : α
  volume : α

namespace Bar

/-- A bar without a price. -/
def isVoid (b : Bar Float) : Bool :=
  b.opening.isNaN || b.high.isNaN || b.low.isNaN || b.closing.isNaN

/-- Prices between low and high, above zero, and no negative volume. -/
def isSane (b : Bar Float) : Bool :=
  !b.isVoid && b.high >= b.low && b.high >= b.opening && b.high >= b.closing &&
    b.low <= b.opening && b.low <= b.closing && b.opening > 0.0 && b.closing > 0.0 &&
    b.volume >= 0.0

end Bar

end SignalDesk
