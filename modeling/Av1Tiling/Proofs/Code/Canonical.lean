import Av1Tiling.Proofs.Code.Leb128
import Av1Tiling.Proofs.Code.LittleEndian
import Av1Tiling.Proofs.Code.Subexp
import Av1Tiling.Proofs.Code.Uvlc

/-!
# Writing again what was read

Most codes have one run of bits for each value, so that what was read is written again bit for bit
(`Restores`). The others let a value be padded: what is written for it then is no longer than what
was read, and is read as the value (`Shortens`).
-/

namespace Av1Tiling

namespace Read

variable {α β : Type} {read : Read α} {write : α → Write β}

/-- What `write` adds for a value that was read are the bits that `read` has used for it. -/
def Restores (read : Read α) (write : α → Write β) : Prop :=
  ∀ reader value behind, read reader = .ok value behind →
    ∃ used made, reader.Advances used behind ∧ Write.Appends (write value) used made

/-- What `write` adds for a value that was read is no longer than the bits that `read` has used for
    it, and is read as the value wherever it stands. -/
def Shortens (read : Read α) (write : α → Write β) : Prop :=
  ∀ reader value behind, read reader = .ok value behind →
    ∃ used code made, reader.Advances used behind ∧ Write.Appends (write value) code made ∧
      code.length ≤ used.length ∧ ∀ pos, read.Yields pos code value

/-- Reading and writing go by the same code. -/
def SameCode (read : Read α) (write : α → Write β) : Prop :=
  ∃ Legal code, Decodes read Legal code ∧
    ∀ value, Legal value → ∃ made, Write.Appends (write value) (code value) made

namespace SameCode

theorem restores (same : SameCode read write) : Restores read write := by
  intro reader value behind run
  obtain ⟨Legal, code, decodes, appends⟩ := same
  obtain ⟨legal, advances⟩ := decodes.sound run
  obtain ⟨made, added⟩ := appends value legal
  exact ⟨code value, made, advances, added⟩

theorem shortens (same : SameCode read write) : Shortens read write := by
  intro reader value behind run
  obtain ⟨Legal, code, decodes, appends⟩ := same
  obtain ⟨legal, advances⟩ := decodes.sound run
  obtain ⟨made, added⟩ := appends value legal
  exact ⟨code value, code value, made, advances, added, Nat.le_refl _,
    fun pos => decodes.yields value pos legal⟩

end SameCode

theorem bits_sameCode (count : Nat) : SameCode (bits count) (Write.bits · count) :=
  ⟨_, _, bits_decodes count, fun value legal => ⟨(), Write.bits_appends value count legal.1⟩⟩

end Read

open Read

theorem LittleEndian.sameCode (size : Nat) : SameCode (read size) (write · size) :=
  ⟨_, _, read_decodes size, fun _ legal => ⟨(), write_appends legal.1 legal.2⟩⟩

theorem NonSymmetric.sameCode (bound : Nat) : SameCode (read bound) (write · bound) :=
  ⟨_, _, read_decodes bound, fun _ legal => ⟨(), write_appends legal.1 legal.2⟩⟩

theorem Increment.sameCode (min max : Nat) : SameCode (read min max) (write · min max) :=
  ⟨_, _, read_decodes min max, fun _ legal => ⟨(), write_appends legal.1 legal.2⟩⟩

theorem Subexp.sameCode (bound : Nat) : SameCode (read bound) (write · bound) :=
  ⟨_, _, read_decodes bound, fun _ legal => ⟨(), write_appends legal⟩⟩

/-- Groups of zeros may follow the last one that counts. -/
theorem Leb128.shortens : Shortens read write := by
  intro reader value behind run
  obtain ⟨fits, used, advances, short⟩ := read_sound run
  exact ⟨used, _, _, advances, write_appends value, short, fun pos => read_yields pos fits⟩

/-- More than 32 zeros say what 32 say. -/
theorem Uvlc.shortens (min max : Nat) : Shortens (read min max) (write · min max) := by
  intro reader value behind run
  obtain ⟨⟨word, inside⟩, used, advances, short⟩ := read_sound run
  exact ⟨used, _, (), advances, write_appends word inside, short, read_yields word inside⟩

end Av1Tiling
