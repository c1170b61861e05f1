import Av1Tiling.Proofs.Bits.Moving
import Av1Tiling.Proofs.Code.Growth
import Av1Tiling.Proofs.Code.Leb128

/-!
# Codes that are read back

Whatever a code has added for a value, it reads as this value from exactly the bits that were added,
at any place and in front of any other bits (`ReadBack`). A number may have several codes, as the
greatest of the variable length numbers has: nothing is said here of those that are not written.
-/

namespace Av1Tiling

namespace Write

variable {α β γ δ : Type}

/-- Where `write` succeeds, `read` yields `value` from exactly the bits that it has added. -/
def ReadBack (write : Write α) (read : Read β) (value : β) : Prop :=
  Grows write fun more => ∀ pos, read.Yields pos more value

namespace ReadBack

variable {write other : Write α} {read : Read β} {value : β}

theorem of_code {code : Bits} (grows : Grows write (· = code))
    (yields : ∀ pos, read.Yields pos code value) : ReadBack write read value :=
  grows.mono fun more same => by
    rw [same]
    exact yields

/-- What is written is the code that is read. -/
theorem of_decodes {Legal : β → Prop} {code : β → Bits} (decodes : read.Decodes Legal code)
    (grows : Grows write fun more => Legal value ∧ more = code value) :
    ReadBack write read value := by
  refine grows.mono fun more known pos => ?_
  rw [known.2]
  exact decodes.yields value pos known.1

/-- A reader may go on with the value where it reads nothing more. -/
protected theorem map {onward : β → Read δ} {result : δ} (back : ReadBack write read value)
    (rest : ∀ pos, (onward value).Yields pos [] result) :
    ReadBack write (read >>= onward) result := by
  refine Grows.mono back fun more yields pos => ?_
  rw [← List.append_nil more]
  exact (yields pos).bind (rest _)

end ReadBack

theorem bits_readBack {value count : Nat} (fits : value < 2 ^ count) :
    ReadBack (bits value count) (Read.bits count) value :=
  .of_decodes (Read.bits_decodes count) <| (bits_grows_narrow value count).mono fun _ known =>
    ⟨⟨known.1, fits⟩, known.2⟩

end Write

open Write

/-! ## Numbers of whole bytes -/

theorem LittleEndian.write_readBack (value size : Nat) :
    ReadBack (write value size) (read size) value :=
  .of_decodes (read_decodes size) (write_grows value size)

theorem Leb128.write_readBack {value : Nat} (fits : value ≤ maxValue) :
    ReadBack (write value) read value :=
  .of_code (write_grows value) fun pos => read_yields pos fits

theorem Uvlc.write_readBack {value min max : Nat} (word : value ≤ maxValue) :
    ReadBack (write value min max) (read min max) value := by
  refine (write_grows value min max).mono ?_
  rintro _ ⟨inside, rfl⟩ pos
  exact read_yields word inside pos

theorem Increment.write_readBack (value min max : Nat) :
    ReadBack (write value min max) (read min max) value :=
  .of_decodes (read_decodes min max) (write_grows value min max)

theorem NonSymmetric.write_readBack (value bound : Nat) :
    ReadBack (write value bound) (read bound) value :=
  .of_decodes (read_decodes bound) (write_grows value bound)

theorem Subexp.write_readBack (value bound : Nat) :
    ReadBack (write value bound) (read bound) value :=
  .of_decodes (read_decodes bound) (write_grows value bound)

end Av1Tiling
