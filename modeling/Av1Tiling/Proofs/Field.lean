import Av1Tiling.Field
import Av1Tiling.Proofs.Code.Increment
import Av1Tiling.Proofs.Code.NonSymmetric

/-!
# Reading and writing fields

A field adds to its code that the value is legal. So it is read and written as its code is, for the
legal values.
-/

namespace Av1Tiling.Field

theorem check_eq_ok {field : Field} {value : Nat} :
    field.check value = .ok () ↔ field.min ≤ value ∧ value ≤ field.max := by
  rw [check]
  split
  next outside =>
    constructor
    · intro impossible
      cases impossible
    · intro inside
      omega
  next inside =>
    constructor
    · intro _
      omega
    · intro _
      rfl

theorem read_decodes (field : Field) {Legal : Nat → Prop} {code : Nat → Bits}
    (decodes : Read.Decodes field.readCode Legal code) :
    Read.Decodes field.read (fun value => Legal value ∧ field.min ≤ value ∧ value ≤ field.max)
      code := by
  constructor
  · rintro value pos ⟨legal, inside⟩
    rw [← List.append_nil (code value)]
    refine (decodes.yields value pos legal).bind ?_
    rw [Step.lift_bind (check_eq_ok.2 inside)]
    exact .pure _ _
  · intro reader value behind run
    obtain ⟨found, between, first, second⟩ := Step.bind_eq_ok.1 run
    obtain ⟨legal, advances⟩ := decodes.sound first
    obtain ⟨_, same, checked, rest⟩ := Step.bind_eq_ok.1 second
    obtain ⟨inside, rfl⟩ := Step.lift_eq_ok.1 checked
    cases rest
    exact ⟨⟨legal, check_eq_ok.1 inside⟩, advances⟩

theorem write_appends {field : Field} {value : Nat} {bits : Bits}
    (inside : field.min ≤ value ∧ value ≤ field.max)
    (appends : Write.Appends (field.writeCode value) bits ()) :
    Write.Appends (field.write value) bits () := by
  rw [write, Step.lift_bind (check_eq_ok.2 inside)]
  exact appends

/-- Only legal values are written. -/
theorem write_inside {field : Field} {value : Nat} {writer behind : BitWriter} {made : Unit}
    (run : field.write value writer = .ok made behind) :
    field.min ≤ value ∧ value ≤ field.max := by
  obtain ⟨_, _, checked, -⟩ := Step.bind_eq_ok.1 run
  exact check_eq_ok.1 (Step.lift_eq_ok.1 checked).1

/-- A number is written in as many bits as a field has, also where they are more than it needs. -/
theorem bits_write_appends_of_word (name : String) {count value : Nat} (narrow : count ≤ 64)
    (fits : value < 2 ^ count) (word : value < 2 ^ 32) :
    Write.Appends ((bits name count).write value) (Bits.ofNat count value) () := by
  have most : value ≤ (bits name count).max := by
    simp only [bits, maxOfBits, maxWord]
    split <;> omega
  exact write_appends ⟨Nat.zero_le _, most⟩ (Write.bits_appends value count narrow)

theorem bits_write_appends (name : String) {count value : Nat} (narrow : count < 32)
    (fits : value < 2 ^ count) :
    Write.Appends ((bits name count).write value) (Bits.ofNat count value) () := by
  have word : 2 ^ count ≤ 2 ^ 32 := Nat.pow_le_pow_right (by decide) (Nat.le_of_lt narrow)
  exact bits_write_appends_of_word name (by omega) fits (by omega)

theorem flag_inside (name : String) (value : Bool) :
    (flag name).min ≤ value.toNat ∧ value.toNat ≤ (flag name).max :=
  ⟨Nat.zero_le _, Bool.toNat_le value⟩

/-- An element of one bit is that bit. -/
theorem readFlag_decodes (name : String) :
    Read.Decodes (flag name).readFlag (fun _ => True) fun value => [value] := by
  have decodes := read_decodes (flag name) (Read.bits_decodes 1)
  constructor
  · intro value pos _
    have fits : value.toNat < 2 ^ 1 := Bool.toNat_lt value
    have first := decodes.yields _ pos ⟨⟨by decide, fits⟩, flag_inside name value⟩
    have same : Bits.ofNat 1 value.toNat = [value] := by cases value <;> rfl
    have run : (flag name).readFlag.Yields pos (Bits.ofNat 1 value.toNat ++ [])
        (value.toNat != 0) := first.bind (.pure _ _)
    rw [List.append_nil, same] at run
    have value_eq : (value.toNat != 0) = value := by cases value <;> rfl
    rwa [value_eq] at run
  · intro reader value behind run
    obtain ⟨found, between, first, second⟩ := Step.bind_eq_ok.1 run
    obtain ⟨⟨⟨-, fits⟩, -⟩, advances⟩ := decodes.sound first
    cases second
    refine ⟨trivial, ?_⟩
    match found, fits with
    | 0, _ => exact advances
    | 1, _ => exact advances

theorem writeFlag_appends (name : String) (value : Bool) :
    Write.Appends ((flag name).writeFlag value) [value] () := by
  have run : Write.Appends ((flag name).write value.toNat) (Bits.ofNat 1 value.toNat) () :=
    write_appends (flag_inside name value) (Write.bits_appends value.toNat 1 (by decide))
  cases value <;> exact run

end Av1Tiling.Field
