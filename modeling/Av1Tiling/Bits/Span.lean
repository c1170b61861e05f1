import Av1Tiling.Bits.Reader
import Av1Tiling.Bits.Writer

/-!
# Spans of bits

Where an element of a header sits in its payload. Headers keep the spans of what may be replaced,
so that everything else can be copied bit for bit.
-/

namespace Av1Tiling

/-- The bits `start..stop` of a payload. -/
structure BitSpan where
  start : Nat
  stop : Nat
  deriving Repr, DecidableEq

namespace BitSpan

/-- Number of bits. -/
def length (span : BitSpan) : Nat :=
  span.stop - span.start

/-- The bits of `payload` in the span. -/
def of (span : BitSpan) (payload : Bytes) : Bits :=
  ((Bits.ofBytes payload).drop span.start).take span.length

end BitSpan

/-- Reads with `step` and yields also the span of what was read. -/
def Read.spanned {α : Type} (step : Read α) : Read (α × BitSpan) := do
  let start ← Read.pos
  let value ← step
  return (value, ⟨start, ← Read.pos⟩)

end Av1Tiling
