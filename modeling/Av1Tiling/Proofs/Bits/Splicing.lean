import Av1Tiling.Bits.Span

/-!
# Spliced payloads

What is written in the place of an element stands between the bits in front of the element and those
behind it. With the element's own bits in its place nothing changes.
-/

namespace Av1Tiling

/-- The content of a payload that ends at bit `stop`, with other bits in the place of a span. -/
def spliced (payload : Bytes) (span : BitSpan) (stop : Nat) (coded : Bits) : Bits :=
  (⟨0, span.start⟩ : BitSpan).of payload ++ coded ++ (⟨span.stop, stop⟩ : BitSpan).of payload

theorem of_front {payload : Bytes} {front rest : Bits}
    (bits : Bits.ofBytes payload = front ++ rest) :
    (⟨0, front.length⟩ : BitSpan).of payload = front := by
  rw [BitSpan.of, BitSpan.length, bits, List.drop_zero, Nat.sub_zero, List.take_left]

theorem of_between {payload : Bytes} {front own rest : Bits}
    (bits : Bits.ofBytes payload = front ++ own ++ rest) :
    (⟨front.length, front.length + own.length⟩ : BitSpan).of payload = own := by
  rw [BitSpan.of, BitSpan.length, bits, List.append_assoc, List.drop_left, Nat.add_sub_cancel_left,
    List.take_left]

/-- What stands behind the front of a payload, up to some later bit. -/
theorem of_behind {payload : Bytes} {front back rest : Bits} {stop : Nat}
    (bits : Bits.ofBytes payload = front ++ (back ++ rest))
    (inside : front.length + back.length ≤ stop) :
    ∃ more, (⟨front.length, stop⟩ : BitSpan).of payload = back ++ more := by
  refine ⟨rest.take (stop - front.length - back.length), ?_⟩
  have left : back.length ≤ stop - front.length := by omega
  rw [BitSpan.of, BitSpan.length, bits, List.drop_left, List.take_append,
    List.take_of_length_le left]

/-- With the bits of the span in their place, the content is that of the payload. -/
theorem spliced_of {payload : Bytes} {span : BitSpan} {stop : Nat}
    (ordered : span.start ≤ span.stop) (inside : span.stop ≤ stop) :
    spliced payload span stop (span.of payload) = (⟨0, stop⟩ : BitSpan).of payload := by
  simp only [spliced, BitSpan.of, BitSpan.length, List.drop_zero, Nat.sub_zero]
  have front : stop = span.start + ((span.stop - span.start) + (stop - span.stop)) := by omega
  have back : span.stop = span.start + (span.stop - span.start) := by omega
  conv => rhs; rw [front, List.take_add, List.take_add, List.drop_drop, ← back]
  rw [List.append_assoc]

end Av1Tiling
