import Av1Tiling.Proofs.Bits.Reading

/-!
# Reading numbers

A number of `count` bits is read as the value of these bits, whether the reader takes whole bytes
or goes bit by bit. So plain numbers are decoded as `Bits.ofNat` writes them.
-/

namespace Av1Tiling.Read

theorem bit_decodes : Decodes bit (fun _ => True) fun value => [value] := by
  constructor
  · intro value pos _ rest
    rfl
  · intro reader value behind run
    obtain ⟨pos, _ | ⟨first, rest⟩⟩ := reader
    · cases run
    · cases run
      exact ⟨trivial, rfl, rfl⟩

theorem octet_yields {used : Bits} (pos : Nat) (eight : used.length = 8) :
    octet.Yields pos used used.toNat := by
  intro rest
  match used, eight with
  | [_, _, _, _, _, _, _, _], _ => rfl

theorem takeBytes_succ (count : Nat) {used : Bits} (eight : used.length = 8) (rest : Bits) :
    takeBytes (count + 1) (used ++ rest) =
      (Bits.toByte used :: (takeBytes count rest).1, (takeBytes count rest).2) := by
  match used, eight with
  | [_, _, _, _, _, _, _, _], _ => rfl

theorem octet_sound {reader behind : BitReader} {value : Nat}
    (run : octet reader = .ok value behind) :
    ∃ used : Bits, used.length = 8 ∧ value = used.toNat ∧ reader.Advances used behind := by
  obtain ⟨pos, rest⟩ := reader
  simp only [octet] at run
  split at run
  next b0 b1 b2 b3 b4 b5 b6 b7 rest =>
    cases run
    exact ⟨[b0, b1, b2, b3, b4, b5, b6, b7], rfl, rfl, rfl, rfl⟩
  next => cases run

/-- What `extend` yields does not depend on how many bits it takes first. -/
theorem extend_append (value low width count : Nat) {factor : Nat} {more : Bits}
    (power : factor = 2 ^ width) (le : width ≤ count) (length : more.length = count - width) :
    (factor * value + low) * 2 ^ (count - width) + more.toNat =
      value * 2 ^ count + (low * 2 ^ more.length + more.toNat) := by
  obtain ⟨left, rfl⟩ : ∃ left, count = width + left := ⟨count - width, by omega⟩
  rw [Nat.add_sub_cancel_left] at length ⊢
  rw [power, length, Nat.pow_add, Nat.add_mul, Nat.mul_comm (2 ^ width) value, Nat.mul_assoc,
    Nat.add_assoc]

theorem extend_yields (value count : Nat) {used : Bits} (pos : Nat) (length : used.length = count) :
    (extend value count).Yields pos used (value * 2 ^ count + used.toNat) := by
  intro rest
  induction count using Nat.strongRecOn generalizing value used pos with
  | ind count ih =>
    rw [extend]
    split
    next empty =>
      obtain rfl : used = [] := List.eq_nil_of_length_eq_zero (length.trans empty)
      simp [empty, Bits.toNat]
    split
    next whole =>
      obtain ⟨low, more, rfl, eight⟩ := Bits.exists_octet (length.symm ▸ whole.2)
      rw [List.length_append] at length
      have behind := ih (count - 8) (by omega) (256 * value + low.toNat) (pos + low.length)
        (by omega : more.length = count - 8)
      rw [Bits.toNat_append,
        ← extend_append value low.toNat 8 count (rfl : 256 = 2 ^ 8) whole.2 (by omega),
        List.append_assoc,
        Step.bind_of_ok (octet_yields pos eight (more ++ rest)), behind, List.length_append,
        Nat.add_assoc]
    next single =>
      obtain ⟨low, more, rfl⟩ : ∃ low more, used = [low] ++ more := by
        cases used with
        | nil => exact absurd length.symm ‹_›
        | cons low more => exact ⟨low, more, rfl⟩
      rw [List.length_append, List.length_singleton] at length
      have behind := ih (count - 1) (by omega) (2 * value + low.toNat) (pos + 1)
        (by omega : more.length = count - 1)
      have first := bit_decodes.yields low pos trivial (more ++ rest)
      rw [Bits.toNat_append, Bits.toNat_singleton, List.append_assoc, Step.bind_of_ok first,
        ← extend_append value low.toNat 1 count (rfl : 2 = 2 ^ 1) (by omega) (by omega)]
      rw [List.length_singleton, behind, List.length_append, List.length_singleton, Nat.add_assoc]

theorem extend_sound {value count : Nat} {reader behind : BitReader} {result : Nat}
    (run : extend value count reader = .ok result behind) :
    ∃ used : Bits, used.length = count ∧ result = value * 2 ^ count + used.toNat ∧
      reader.Advances used behind := by
  induction count using Nat.strongRecOn generalizing value reader with
  | ind count ih =>
    rw [extend] at run
    split at run
    next empty =>
      cases run
      exact ⟨[], empty.symm, by simp [empty, Bits.toNat], .refl _⟩
    split at run
    next whole =>
      obtain ⟨low, between, first, second⟩ := Step.bind_eq_ok.1 run
      obtain ⟨used, eight, rfl, advances⟩ := octet_sound first
      obtain ⟨more, length, rfl, onward⟩ := ih (count - 8) (by omega) second
      refine ⟨used ++ more, ?_, ?_, advances.trans onward⟩
      · rw [List.length_append]
        omega
      · rw [Bits.toNat_append]
        exact extend_append value used.toNat 8 count rfl whole.2 length
    next single =>
      obtain ⟨low, between, first, second⟩ := Step.bind_eq_ok.1 run
      obtain ⟨-, advances⟩ := bit_decodes.sound first
      obtain ⟨more, length, rfl, onward⟩ := ih (count - 1) (by omega) second
      refine ⟨[low] ++ more, ?_, ?_, advances.trans onward⟩
      · rw [List.length_append, List.length_singleton]
        omega
      · rw [Bits.toNat_append, Bits.toNat_singleton,
          ← extend_append value low.toNat 1 count (rfl : 2 = 2 ^ 1) (by omega) length]

/-- A number of `count` bits stands as its bits. -/
theorem bits_decodes (count : Nat) :
    Decodes (bits count) (fun value => count ≤ 64 ∧ value < 2 ^ count) (Bits.ofNat count) := by
  constructor
  · intro value pos legal rest
    rw [bits, if_neg (by omega), extend_yields 0 count pos (Bits.length_ofNat count value),
      Bits.toNat_ofNat, Nat.mod_eq_of_lt legal.2, Nat.zero_mul, Nat.zero_add]
  · intro reader value behind run
    rw [bits] at run
    split at run
    next => cases run
    next narrow =>
      obtain ⟨used, rfl, rfl, advances⟩ := extend_sound run
      rw [Nat.zero_mul, Nat.zero_add, Bits.ofNat_toNat]
      exact ⟨⟨by omega, Bits.toNat_lt used⟩, advances⟩

theorem zeroPadding_go_sound {count : Nat} {reader behind : BitReader}
    (run : zeroPadding.go count reader = .ok () behind) :
    reader.Advances (List.replicate count false) behind := by
  induction count generalizing reader with
  | zero =>
    cases run
    exact .refl _
  | succ count ih =>
    obtain ⟨value, between, first, second⟩ := Step.bind_eq_ok.1 run
    obtain ⟨-, advances⟩ := bit_decodes.sound first
    cases value with
    | true => cases second
    | false => exact advances.trans (ih second)

/-- What fills up a byte that was begun is zero. -/
theorem zeroPadding_sound {reader behind : BitReader} (run : zeroPadding reader = .ok () behind) :
    reader.Advances (List.replicate reader.untilAligned false) behind :=
  zeroPadding_go_sound run

theorem bit_exact : Exact bit := bit_decodes.exact

theorem bits_exact (count : Nat) : Exact (bits count) := (bits_decodes count).exact

end Av1Tiling.Read
