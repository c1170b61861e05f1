import Av1Tiling.Proofs.Code.Growth
import Av1Tiling.Proofs.Obu.Reading
import Av1Tiling.Proofs.Obu.Rereading
import Av1Tiling.Proofs.Obu.Written

/-!
# The code of OBU headers

The fields of a header have room for as much as can be read, and whatever does not fit them is not
written. Only the size is not looked at before it is written: the writer takes one of any length,
while no reader accepts one of more than 32 bits. Up to there the two agree.
-/

namespace Av1Tiling

/-- A step that makes up its bytes aside has succeeded there. -/
theorem Write.aside_eq_ok {step : Write Unit} {capacity : Nat} {writer behind : BitWriter}
    {made : Unit} (run : aside step capacity writer = .ok made behind) :
    ∃ own, step (.empty capacity) = .ok () own := by
  rw [aside, EStateM.run] at run
  cases alone : step (.empty capacity) with
  | ok _ own => exact ⟨own, rfl⟩
  | error cause own =>
    rw [alone] at run
    cases cause with
    | raised error =>
      obtain ⟨_, _, -, failed⟩ := Step.bind_eq_ok.1 run
      cases failed
    | fault cause => cases run

namespace ObuHeader

/-- The header is read from some bits. -/
def Readable (header : ObuHeader) : Prop :=
  ∃ reader behind, read reader = .ok header behind

/-! ## Reading -/

theorem readOptional_eq_ok {α : Type} {present : Bool} {step : Read α} {reader behind : BitReader}
    {value : α} (run : readOptional present step reader = .ok (some value) behind) :
    step reader = .ok value behind := by
  cases present with
  | false => cases run
  | true =>
    obtain ⟨found, first, same⟩ := Step.map_eq_ok.1 run
    rwa [Option.some.inj same] at first

theorem read_sizeFits {header : ObuHeader} {reader behind : BitReader}
    (run : read reader = .ok header behind) : header.SizeFits := by
  obtain ⟨_, _, _, -, last⟩ := read_eq_ok run
  intro size known
  rw [known] at last
  exact (Leb128.read_sound (readOptional_eq_ok last)).1

/-- What headers can be read. -/
theorem readable_iff {header : ObuHeader} :
    header.Readable ↔
      header.InRange ∧ ObuType.ofCode header.type.code = header.type ∧ header.SizeFits := by
  constructor
  · rintro ⟨reader, behind, run⟩
    obtain ⟨_, between, -, fields⟩ := Step.bind_eq_ok.1 run
    have inRange := (readFields_safe.of_ok (BitReader.Reaches.refl between) fields).1
    exact ⟨inRange, read_type run, read_sizeFits run⟩
  · rintro ⟨inRange, own, fits⟩
    have yields := read_yields_bits inRange own fits 0 []
    exact ⟨_, _, yields⟩

/-! ## Writing -/

/-- The header takes as many bytes as it says. -/
theorem exists_bytes (header : ObuHeader) :
    ∃ data, Bits.ofBytes data = header.bits ∧ data.length = header.byteSize := by
  obtain ⟨data, same, length⟩ := header.exists_fixed header.size.isSome
  cases known : header.size with
  | none =>
    refine ⟨data, ?_, ?_⟩
    · rw [same, bits, known, sizeBits, List.append_nil]
    · rw [length, byteSize, known]
      rfl
  | some size =>
    refine ⟨data ++ Leb128.encode size, ?_, ?_⟩
    · rw [Bits.ofBytes_append, same, bits, known, sizeBits]
    · rw [List.length_append, length, byteSize, known, Leb128.length_encode]
      rfl

/-- A header that does not fit its fields is not written. -/
theorem writeFixed_inRange {header : ObuHeader} {sized : Bool} {writer behind : BitWriter}
    {made : Unit} (run : header.writeFixed sized writer = .ok made behind) : header.InRange := by
  obtain ⟨_, _, -, run⟩ := Step.bind_eq_ok.1 run
  obtain ⟨_, _, type, run⟩ := Step.bind_eq_ok.1 run
  obtain ⟨_, _, -, run⟩ := Step.bind_eq_ok.1 run
  obtain ⟨_, _, -, run⟩ := Step.bind_eq_ok.1 run
  obtain ⟨_, _, -, run⟩ := Step.bind_eq_ok.1 run
  have narrow : header.type.code < 16 := Nat.lt_succ_of_le (Field.write_inside type).2
  cases known : header.extension with
  | none => exact ⟨narrow, by rw [temporalId, known]; decide, by rw [spatialId, known]; decide⟩
  | some extension =>
    simp only [known] at run
    obtain ⟨_, _, temporal, run⟩ := Step.bind_eq_ok.1 run
    obtain ⟨_, _, spatial, -⟩ := Step.bind_eq_ok.1 run
    refine ⟨narrow, ?_, ?_⟩
    · rw [temporalId, known]
      exact Nat.lt_succ_of_le (Field.write_inside temporal).2
    · rw [spatialId, known]
      exact Nat.lt_succ_of_le (Field.write_inside spatial).2

theorem write_inRange {header : ObuHeader} {writer behind : BitWriter} {count : Nat}
    (run : header.write writer = .ok count behind) : header.InRange := by
  obtain ⟨_, _, fixed, -⟩ := Step.bind_eq_ok.1 run
  obtain ⟨_, alone⟩ := Write.aside_eq_ok fixed
  exact writeFixed_inRange alone

theorem write_grows {header : ObuHeader} (inRange : header.InRange) :
    Write.Grows header.write (· = header.bits) := by
  obtain ⟨data, same, length⟩ := header.exists_fixed header.size.isSome
  have fixed := writeFixed_appends_bits inRange header.size.isSome
  rw [← same] at fixed
  have opened := Emit.aside_grows fixed
  rw [length, same] at opened
  cases known : header.size with
  | none =>
    rw [known] at opened
    simp only [write, bits, known]
    refine (opened.bind fun _ _ _ _ => .pure header.fixedSize).mono ?_
    rintro _ ⟨_, _, rfl, rfl, rfl⟩
    rfl
  | some size =>
    have sized : Write.Grows (Leb128.write size >>= fun count => pure (header.fixedSize + count))
        (· = sizeBits (some size)) := by
      refine ((Leb128.write_grows size).bind fun _ _ _ _ => .pure _).mono ?_
      rintro _ ⟨_, _, rfl, rfl, rfl⟩
      exact List.append_nil _
    rw [known] at opened
    simp only [write, bits, known]
    refine (opened.bind fun _ _ _ _ => sized).mono ?_
    rintro _ ⟨_, _, rfl, rfl, rfl⟩
    rfl

theorem write_count {header : ObuHeader} {writer behind : BitWriter} {count : Nat}
    (run : header.write writer = .ok count behind) : count = header.byteSize := by
  obtain ⟨_, _, -, run⟩ := Step.bind_eq_ok.1 run
  rw [byteSize]
  cases known : header.size with
  | none =>
    rw [known] at run
    cases run
    rfl
  | some size =>
    rw [known] at run
    obtain ⟨taken, _, written, run⟩ := Step.bind_eq_ok.1 run
    obtain ⟨_, _, -, written⟩ := Step.bind_eq_ok.1 written
    cases written
    cases run
    rw [Leb128.length_encode]
    rfl

/-! ## Both -/

/-- The writer and the reader of headers agree on this one. Wherever it is written, its size is what
    the writer yields, and it is read from the bytes that were written, whatever follows them. Where
    there is room it is written if it can be read, and it is never written if it cannot. -/
structure Agrees (header : ObuHeader) : Prop where
  written : ∀ writer count behind, writer.Tight → header.write writer = .ok count behind →
    count = header.byteSize ∧ ∃ data, data.length = count ∧
      writer.Extends (Bits.ofBytes data) behind ∧
      ∀ rest, Obu.readHeader (.ofBytes (data ++ rest)) = .ok header ⟨data ++ rest, data.length⟩
  accepted : header.Readable → ∀ writer, writer.Room (8 * header.byteSize) →
    ∃ count behind, header.write writer = .ok count behind
  refused : ¬ header.Readable → ∀ writer, ∃ cause behind,
    header.write writer = .error cause behind

/-- The writer and the reader agree on every header of a type with a code whose size, if it says
    one, has no more than 32 bits. -/
theorem agrees_of_small_size {header : ObuHeader} {code : Nat}
    (known : header.type = ObuType.ofCode code)
    (small : ∀ size, header.size = some size → size < 2 ^ 32) : header.Agrees := by
  have own : ObuType.ofCode header.type.code = header.type := by
    rw [known, ObuType.code_ofCode]
  have fits : header.SizeFits := fun size found => Nat.le_pred_of_lt (small size found)
  obtain ⟨data, same, length⟩ := header.exists_bytes
  refine ⟨?_, ?_, ?_⟩
  · intro writer count behind tight run
    have inRange := write_inRange run
    obtain ⟨-, _, rfl, extends_⟩ := write_grows inRange writer count behind tight run
    have counted := write_count run
    refine ⟨counted, data, length.trans counted.symm, ?_, fun rest => ?_⟩
    · rwa [same]
    · have yields := read_yields_bits inRange own fits 0
      rw [← bits, ← same] at yields
      have here : (Cursor.ofBytes (data ++ rest)).rest = data ++ rest := rfl
      have read := Obu.readHeader_of_yields yields here
      rwa [Cursor.ofBytes, Cursor.seek, Nat.zero_add] at read
  · intro readable writer room
    obtain ⟨inRange, -, -⟩ := readable_iff.1 readable
    rw [← length, ← Bits.length_ofBytes, same] at room
    obtain ⟨behind, run, -⟩ := write_appends inRange writer room
    exact ⟨_, behind, run⟩
  · intro unreadable writer
    cases run : header.write writer with
    | error cause behind => exact ⟨cause, behind, rfl⟩
    | ok count behind =>
      exact absurd (readable_iff.2 ⟨write_inRange run, own, fits⟩) unreadable

/-- A frame of the highest layers whose size takes two bytes. -/
theorem agrees_of_small_size_two_bytes :
    ObuType.frame = ObuType.ofCode 6 ∧
      (∀ size, some 300 = some size → size < 2 ^ 32) ∧
      (⟨.frame, some 300, some ⟨7, 3⟩⟩ : ObuHeader).Agrees := by
  have small : ∀ size, some 300 = some size → size < 2 ^ 32 := by
    rintro _ ⟨⟩
    decide
  have known : ObuType.frame = ObuType.ofCode 6 := rfl
  exact ⟨known, small, agrees_of_small_size known small⟩

/-- A size of 33 bits is written, in five bytes, although no header with such a size can be read. -/
theorem not_agrees_beyond_word :
    ObuType.temporalDelimiter = ObuType.ofCode 2 ∧
      ¬ (⟨.temporalDelimiter, some (2 ^ 32), none⟩ : ObuHeader).Agrees := by
  refine ⟨rfl, fun agrees => ?_⟩
  have unreadable : ¬ (⟨.temporalDelimiter, some (2 ^ 32), none⟩ : ObuHeader).Readable := by
    intro readable
    obtain ⟨-, -, fits⟩ := readable_iff.1 readable
    exact absurd (fits _ rfl) (by decide)
  obtain ⟨_, _, failed⟩ := agrees.refused unreadable (.empty 6)
  obtain ⟨_, _, run, -⟩ := (by decide +kernel : Step.Succeeds (fun _ _ => True)
    ((⟨.temporalDelimiter, some (2 ^ 32), none⟩ : ObuHeader).write (.empty 6))).eq_ok
  cases failed.symm.trans run

end ObuHeader

end Av1Tiling
