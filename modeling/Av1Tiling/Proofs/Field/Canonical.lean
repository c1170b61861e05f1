import Av1Tiling.Proofs.Code.Canonical
import Av1Tiling.Proofs.Field

/-!
# Elements that are written again

The range of a field only takes values away from its code. So an element that was read is written
again as its code is: as the bits that were read, or, where the code lets values be padded, as no
more bits that are read as the same value.
-/

namespace Av1Tiling

open Read

/-- No value of the coding can be padded. -/
def Coding.Canonical : Coding → Prop
  | .leb128 | .uvlc => False
  | _ => True

namespace Field

theorem readCode_sameCode {field : Field} (canonical : field.coding.Canonical) :
    SameCode field.readCode field.writeCode := by
  unfold readCode writeCode
  cases coding : field.coding with
  | bits count => exact bits_sameCode count
  | littleEndian size => exact LittleEndian.sameCode size
  | leb128 =>
    rw [coding] at canonical
    exact canonical.elim
  | uvlc =>
    rw [coding] at canonical
    exact canonical.elim
  | nonSymmetric bound => exact NonSymmetric.sameCode bound
  | increment => exact Increment.sameCode field.min field.max
  | subexp bound => exact Subexp.sameCode bound

theorem read_sameCode {field : Field} (canonical : field.coding.Canonical) :
    SameCode field.read field.write := by
  obtain ⟨Legal, code, decodes, appends⟩ := readCode_sameCode canonical
  refine ⟨_, code, field.read_decodes decodes, fun value legal => ?_⟩
  obtain ⟨made, added⟩ := appends value legal.1
  exact ⟨(), write_appends legal.2 added⟩

theorem readCode_shortens (field : Field) : Shortens field.readCode field.writeCode := by
  by_cases canonical : field.coding.Canonical
  · exact (readCode_sameCode canonical).shortens
  · unfold readCode writeCode
    cases coding : field.coding with
    | leb128 =>
      intro reader value behind run
      obtain ⟨used, code, made, advances, appends, rest⟩ := Leb128.shortens reader value behind run
      exact ⟨used, code, (), advances, appends.map fun _ => (), rest⟩
    | uvlc => exact Uvlc.shortens 0 Uvlc.maxValue
    | _ =>
      rw [coding] at canonical
      exact absurd trivial canonical

theorem read_shortens (field : Field) : Shortens field.read field.write := by
  intro reader value behind run
  obtain ⟨found, between, first, second⟩ := Step.bind_eq_ok.1 run
  obtain ⟨_, same, checked, rest⟩ := Step.bind_eq_ok.1 second
  obtain ⟨inside, rfl⟩ := Step.lift_eq_ok.1 checked
  cases rest
  obtain ⟨used, code, made, advances, appends, short, yields⟩ :=
    readCode_shortens field reader value _ first
  refine ⟨used, code, (), advances, write_appends (check_eq_ok.1 inside) appends, short,
    fun pos => ?_⟩
  rw [← List.append_nil code]
  refine (yields pos).bind ?_
  rw [Step.lift_bind inside]
  exact .pure value _

/-- Codes are canonical and in range. An element whose coding lets no value be padded is written
    again as exactly the bits that it was read from, wherever they started, and a value that was
    read below a bound lies below it. Numbers that can be padded, and the elements made of them, are
    written again in no more bits, which are read as the same value. -/
theorem read_canonical :
    (∀ field : Field, field.coding.Canonical → Restores field.read field.write) ∧
      (∀ bound reader value behind, NonSymmetric.read bound reader = .ok value behind →
        value < bound) ∧
      (∀ bound reader value behind, Subexp.read bound reader = .ok value behind →
        value < bound) ∧
      Shortens Leb128.read Leb128.write ∧
      (∀ min max, Shortens (Uvlc.read min max) (Uvlc.write · min max)) ∧
      ∀ field : Field, Shortens field.read field.write := by
  refine ⟨?_, ?_, ?_, Leb128.shortens, Uvlc.shortens, read_shortens⟩
  · intro field canonical
    exact (read_sameCode canonical).restores
  · intro bound reader value behind run
    exact ((NonSymmetric.read_decodes bound).sound run).1.1
  · intro bound reader value behind run
    exact ((Subexp.read_decodes bound).sound run).1.lt

/-- The code of 255 below 300: five steps up to the last bin, and the place in it. -/
def codeOf255 : Bits :=
  [true, true, true, true, true, true, true, false, true, false, false, true, true]

/-- Behind three bits of a byte, a value of the last bin is restored, and a number behind forty
    zeros is shortened. -/
theorem read_canonical_behind_three_bits :
    ((subexp "delta" 300).coding.Canonical ∧
      ∃ behind, (subexp "delta" 300).read ⟨3, codeOf255 ++ [true]⟩ = .ok 255 behind ∧
        ∃ used made, BitReader.Advances ⟨3, codeOf255 ++ [true]⟩ used behind ∧
          Write.Appends ((subexp "delta" 300).write 255) used made) ∧
      (∃ behind, Subexp.read 300 ⟨3, codeOf255⟩ = .ok 255 behind ∧ 255 < 300) ∧
      ∃ behind, (uvlc "ticks").read ⟨3, List.replicate 40 false ++ [true]⟩ =
          .ok (2 ^ 32 - 1) behind ∧
        ∃ used code made, BitReader.Advances ⟨3, List.replicate 40 false ++ [true]⟩ used behind ∧
          Write.Appends ((uvlc "ticks").write (2 ^ 32 - 1)) code made ∧ code.length ≤ used.length ∧
          ∀ pos, (uvlc "ticks").read.Yields pos code (2 ^ 32 - 1) := by
  obtain ⟨restores, -, below, -, -, shortens⟩ := read_canonical
  have canonical : (subexp "delta" 300).coding.Canonical := trivial
  obtain ⟨_, first, delta, rfl⟩ := (by decide +kernel : Step.Succeeds (fun value _ => value = 255)
    ((subexp "delta" 300).read ⟨3, codeOf255 ++ [true]⟩)).eq_ok
  obtain ⟨_, second, alone, rfl⟩ := (by decide +kernel : Step.Succeeds (fun value _ => value = 255)
    (Subexp.read 300 ⟨3, codeOf255⟩)).eq_ok
  obtain ⟨_, third, ticks, rfl⟩ := (by decide +kernel : Step.Succeeds
    (fun value _ => value = 2 ^ 32 - 1)
    ((uvlc "ticks").read ⟨3, List.replicate 40 false ++ [true]⟩)).eq_ok
  exact ⟨⟨canonical, first, delta, restores _ canonical _ _ _ delta⟩,
    ⟨second, alone, below 300 _ _ _ alone⟩,
    third, ticks, shortens (uvlc "ticks") _ _ _ ticks⟩

end Field

end Av1Tiling
