import Av1Tiling.Bits.ByteReader
import Av1Tiling.Proofs.Bits.Exhaustion

/-!
# What a reader of bytes shows

Whatever a `ByteReader` is in the middle of, it shows a position and the bits that are left (`view`),
and each of its steps does to these what the step of `Read` does (`Refines`).
-/

namespace Av1Tiling

/-! ## What a reader shows -/

namespace ByteReader

/-- The position and the bits that are left. -/
def view (reader : ByteReader) : BitReader :=
  ⟨reader.pos, (Bits.ofBytes reader.cursor.data).drop reader.pos⟩

/-- The reader is somewhere in `data`, its cursor behind the last byte of which some bit was read, and
    keeps that byte as long as there are more bits of it to read. -/
structure Sound (data : Bytes) (reader : ByteReader) : Prop where
  source : reader.cursor.data = data
  place : reader.cursor.pos = (reader.pos + 7) / 8
  used : reader.used = reader.pos % 8
  inside : reader.pos ≤ 8 * data.length
  byte : reader.used ≠ 0 → data.drop (reader.pos / 8) = reader.byte :: reader.cursor.rest

/-- The reader has a byte of `data` with bits left to read. -/
structure Begun (data : Bytes) (reader : ByteReader) : Prop where
  source : reader.cursor.data = data
  place : reader.cursor.pos = reader.pos / 8 + 1
  used : reader.used = reader.pos % 8
  byte : data.drop (reader.pos / 8) = reader.byte :: reader.cursor.rest

variable {data : Bytes} {reader behind : ByteReader}

theorem sound_ofBytes (data : Bytes) : (ofBytes data).Sound data :=
  ⟨rfl, (by decide : 0 = (0 + 7) / 8), rfl, Nat.zero_le _, fun begun => absurd rfl begun⟩

theorem Sound.aligned_iff (sound : reader.Sound data) :
    reader.view.aligned = true ↔ reader.used = 0 := by
  rw [sound.used, BitReader.aligned, beq_iff_eq]
  rfl

/-- Between two bytes the bits that are left are those of the bytes that are left. -/
theorem Sound.rest_of_aligned (sound : reader.Sound data) (aligned : reader.used = 0) :
    reader.view.rest = Bits.ofBytes reader.cursor.rest := by
  have used := sound.used
  have place := sound.place
  have pos : reader.pos = 8 * reader.cursor.pos := by omega
  rw [Cursor.rest, Bits.ofBytes_drop, ← pos]
  rfl

theorem Sound.begun (sound : reader.Sound data) (some : reader.used ≠ 0) : reader.Begun data := by
  have used := sound.used
  have place := sound.place
  exact ⟨sound.source, by omega, used, sound.byte some⟩

theorem Begun.lt (begun : reader.Begun data) : reader.pos / 8 < data.length := by
  have length := congrArg List.length begun.byte
  rw [List.length_drop, List.length_cons] at length
  omega

/-- In a byte the bits that are left of it come first. -/
theorem Begun.rest (begun : reader.Begun data) :
    reader.view.rest =
      Bits.ofNat (8 - reader.used) reader.byte.toNat ++ Bits.ofBytes reader.cursor.rest := by
  have used := begun.used
  have pos : reader.pos = 8 * (reader.pos / 8) + reader.used := by omega
  have inside : reader.used ≤ (Bits.ofByte reader.byte).length := by
    rw [Bits.length_ofByte]
    omega
  calc reader.view.rest
      = (Bits.ofBytes (data.drop (reader.pos / 8))).drop reader.used := by
        rw [Bits.ofBytes_drop, List.drop_drop, ← pos, view, begun.source]
    _ = (Bits.ofByte reader.byte ++ Bits.ofBytes reader.cursor.rest).drop reader.used := by
        rw [begun.byte, Bits.ofBytes_cons]
    _ = _ := by rw [List.drop_append_of_le_length inside, Bits.ofByte, Bits.drop_ofNat]

/-- What is shown goes on with the position. -/
theorem view_add (count : Nat) (same : behind.cursor.data = reader.cursor.data)
    (pos : behind.pos = reader.pos + count) :
    behind.view = ⟨reader.view.pos + count, reader.view.rest.drop count⟩ := by
  rw [view, view, same, pos, List.drop_drop]

/-- The reader with `count` whole bytes taken off its cursor. -/
def past (reader : ByteReader) (count : Nat) : ByteReader :=
  { reader with
    cursor := reader.cursor.seek (reader.cursor.pos + count)
    pos := reader.pos + 8 * count }

theorem view_past (reader : ByteReader) (count : Nat) : (reader.past count).view =
    ⟨reader.view.pos + 8 * count, reader.view.rest.drop (8 * count)⟩ :=
  view_add (8 * count) rfl rfl

theorem Sound.past {count : Nat} (sound : reader.Sound data) (aligned : reader.used = 0)
    (enough : count ≤ reader.cursor.rest.length) : (reader.past count).Sound data := by
  have place := sound.place
  have used := sound.used
  have inside := sound.inside
  rw [Cursor.rest, List.length_drop, sound.source] at enough
  refine ⟨sound.source, ?_, ?_, ?_, fun some => absurd aligned some⟩
  · simp only [ByteReader.past, Cursor.seek, place]
    omega
  · simp only [ByteReader.past, used]
    omega
  · simp only [ByteReader.past]
    omega

/-- The reader with one more bit of its byte read. -/
def further (reader : ByteReader) : ByteReader :=
  { reader with used := (reader.used + 1) % 8, pos := reader.pos + 1 }

/-- Behind the next bit the reader is in the byte, or between two bytes where this was the last one. -/
theorem Begun.further (begun : reader.Begun data) : reader.further.Sound data := by
  have place := begun.place
  have used := begun.used
  have lt := begun.lt
  refine ⟨begun.source, ?_, ?_, ?_, fun some => ?_⟩
  · simp only [ByteReader.further, place]
    omega
  · simp only [ByteReader.further, used]
    omega
  · simp only [ByteReader.further]
    omega
  · have stays : (reader.pos + 1) / 8 = reader.pos / 8 := by
      simp only [ByteReader.further, used] at some
      omega
    simp only [ByteReader.further, stays]
    exact begun.byte

end ByteReader

namespace ByteRead

open ByteReader

variable {α β : Type} {data : Bytes} {reader : ByteReader}

/-- A step off the cursor of `data` comes out as a step on bits alone does, and shows what that leaves
    behind. -/
def Agrees (data : Bytes) (result : EStateM.Result (Failure StreamError) ByteReader α)
    (plain : EStateM.Result (Failure StreamError) BitReader α) : Prop :=
  match result with
  | .ok value behind => plain = .ok value behind.view ∧ behind.Sound data
  | .error cause behind => plain = .error cause behind.view ∧ behind.Sound data

/-- The step does to what the reader shows what the other does. -/
def Refines (step : ByteRead α) (plain : Read α) : Prop :=
  ∀ data reader, reader.Sound data → Agrees data (step reader) (plain reader.view)

/-- What follows on steps that agree agrees with what follows on the other. -/
theorem Agrees.bind {step : ByteRead α} {plain : Read α} {next : α → ByteRead β}
    {plainNext : α → Read β} (first : Agrees data (step reader) (plain reader.view))
    (second : ∀ value, Refines (next value) (plainNext value)) :
    Agrees data ((step >>= next) reader) ((plain >>= plainNext) reader.view) := by
  cases run : step reader with
  | ok value between =>
    rw [run] at first
    rw [Step.bind_of_ok run, Step.bind_of_ok first.1]
    exact second value data between first.2
  | error cause behind =>
    rw [run] at first
    rw [Step.bind_of_error run, Step.bind_of_error first.1]
    exact ⟨rfl, first.2⟩

namespace Refines

variable {step : ByteRead α} {plain : Read α}

protected theorem pure (value : α) : Refines (pure value) (pure value) :=
  fun _ _ sound => ⟨rfl, sound⟩

protected theorem throw (cause : Failure StreamError) :
    Refines (throw cause : ByteRead α) (throw cause) :=
  fun _ _ sound => ⟨rfl, sound⟩

protected theorem bind {next : α → ByteRead β} {plainNext : α → Read β} (first : Refines step plain)
    (second : ∀ value, Refines (next value) (plainNext value)) :
    Refines (step >>= next) (plain >>= plainNext) :=
  fun data reader sound => (first data reader sound).bind second

protected theorem map (f : α → β) (refines : Refines step plain) :
    Refines (f <$> step) (f <$> plain) := by
  intro data reader sound
  have known := refines data reader sound
  simp only [Functor.map, EStateM.map]
  cases run : step reader with
  | ok value behind =>
    rw [run] at known
    rw [known.1]
    exact ⟨rfl, known.2⟩
  | error cause behind =>
    rw [run] at known
    rw [known.1]
    exact ⟨rfl, known.2⟩

/-- A row of steps. -/
protected theorem mapM {γ : Type} {step : γ → ByteRead α} {plain : γ → Read α} (items : List γ)
    (each : ∀ item, Refines (step item) (plain item)) :
    Refines (items.mapM step) (items.mapM plain) := by
  induction items with
  | nil =>
    rw [List.mapM_nil, List.mapM_nil]
    exact .pure []
  | cons item rest ih =>
    rw [List.mapM_cons, List.mapM_cons]
    exact (each item).bind fun value => ih.bind fun values => .pure (value :: values)

end Refines

/-! ## The bits of one byte -/

theorem nextByte_of_nil (none : reader.cursor.rest = []) :
    nextByte reader = .error (.raised (.exhausted reader.pos)) reader := by
  rw [nextByte, none]

theorem nextByte_of_cons {byte : UInt8} {rest : Bytes} (bytes : reader.cursor.rest = byte :: rest) :
    nextByte reader =
      .ok byte { reader with cursor := reader.cursor.seek (reader.cursor.pos + 1) } := by
  rw [nextByte, bytes]

/-- A byte is begun with the same bits left, unless there are none. -/
theorem beginByte_cases (sound : reader.Sound data) :
    (beginByte reader = .error (.raised (.exhausted reader.pos)) reader ∧ reader.view.rest = []) ∨
      ∃ behind, beginByte reader = .ok () behind ∧ behind.Begun data ∧ behind.view = reader.view := by
  by_cases aligned : reader.used = 0
  · have used := sound.used
    have place := sound.place
    have pos : reader.cursor.pos = reader.pos / 8 := by omega
    have left := sound.rest_of_aligned aligned
    rw [beginByte, if_pos aligned]
    cases bytes : reader.cursor.rest with
    | nil =>
      rw [bytes] at left
      exact .inl ⟨Step.bind_of_error (nextByte_of_nil bytes), left⟩
    | cons byte rest =>
      have behind : (reader.cursor.seek (reader.cursor.pos + [byte].length)).rest = rest :=
        Cursor.rest_seek bytes
      refine .inr ⟨_, Step.bind_of_ok (nextByte_of_cons bytes),
        ⟨sound.source, congrArg (· + 1) pos, used, ?_⟩, rfl⟩
      rw [List.length_singleton] at behind
      rw [behind, ← bytes, ← pos, ← sound.source]
      rfl
  · rw [beginByte, if_neg aligned]
    exact .inr ⟨reader, rfl, sound.begun aligned, rfl⟩

theorem bit_refines : Refines bit Read.bit := by
  intro data reader sound
  rcases beginByte_cases sound with ⟨run, none⟩ | ⟨behind, run, begun, same⟩
  · rw [bit, Step.bind_of_error run]
    refine ⟨?_, sound⟩
    rw [Read.bit, none]
    rfl
  · have used := begun.used
    obtain ⟨left, width⟩ : ∃ left, 8 - behind.used = left + 1 := ⟨7 - behind.used, by omega⟩
    have index : 7 - behind.used = left := by omega
    have success : bit reader = .ok (behind.byte.toNat.testBit left) behind.further := by
      rw [bit, Step.bind_of_ok run, Step.get_bind, index]
      rfl
    have shown : behind.further.view = ⟨behind.view.pos + 1, behind.view.rest.drop 1⟩ :=
      view_add 1 rfl rfl
    have first := begun.rest
    rw [width, Bits.ofNat, List.cons_append] at first
    rw [success, ← same]
    refine ⟨?_, begun.further⟩
    rw [Read.bit, shown, first]
    rfl

/-- Between two bytes a whole byte is read at once. -/
theorem octet_agrees (sound : reader.Sound data) (aligned : reader.used = 0) :
    Agrees data (octet reader) (Read.octet reader.view) := by
  have left := sound.rest_of_aligned aligned
  cases bytes : reader.cursor.rest with
  | nil =>
    rw [bytes] at left
    have none : reader.view = ⟨reader.pos, []⟩ := by
      rw [← Bits.ofBytes_nil, ← left]
      rfl
    rw [octet, Step.bind_of_error (nextByte_of_nil bytes)]
    refine ⟨?_, sound⟩
    rw [none]
    rfl
  | cons byte rest =>
    have success : octet reader = .ok byte.toNat (reader.past 1) := by
      rw [octet, Step.bind_of_ok (nextByte_of_cons bytes)]
      rfl
    have one : 1 ≤ reader.cursor.rest.length := by
      rw [bytes]
      exact Nat.le_add_left 1 rest.length
    rw [bytes, Bits.ofBytes_cons] at left
    rw [success]
    refine ⟨?_, sound.past aligned one⟩
    have plain := Read.octet_yields reader.view.pos (Bits.length_ofByte byte) (Bits.ofBytes rest)
    rw [← left, Bits.toNat_ofByte, Bits.length_ofByte] at plain
    rw [view_past, left, Nat.mul_one, List.drop_left' (Bits.length_ofByte byte)]
    exact plain

/-! ## Numbers -/

theorem extend_refines (value count : Nat) :
    Refines (extend value count) (Read.extend value count) := by
  induction count using Nat.strongRecOn generalizing value with
  | ind count ih =>
    intro data reader sound
    rw [extend, Read.extend]
    simp only [sound.aligned_iff]
    by_cases empty : count = 0
    · rw [if_pos empty, if_pos empty]
      exact ⟨rfl, sound⟩
    · rw [if_neg empty, if_neg empty]
      by_cases whole : reader.used = 0 ∧ 8 ≤ count
      · rw [if_pos whole, if_pos whole]
        exact (octet_agrees sound whole.1).bind fun low => ih (count - 8) (by omega) _
      · rw [if_neg whole, if_neg whole]
        exact (bit_refines data reader sound).bind fun low => ih (count - 1) (by omega) _

theorem bits_refines (count : Nat) : Refines (bits count) (Read.bits count) := by
  rw [bits, Read.bits]
  split
  · exact .throw _
  · exact extend_refines 0 count

theorem singly_refines (count : Nat) : Refines (singly bit count) (singly Read.bit count) :=
  .map Bits.toNat (.mapM _ fun _ => bit_refines)

theorem skip_refines (count : Nat) : Refines (skip count) (Read.skip count) := by
  induction count using Nat.strongRecOn with
  | ind count ih =>
    rw [skip, Read.skip]
    by_cases empty : count = 0
    · rw [if_pos empty, if_pos empty]
      exact .pure ()
    · rw [if_neg empty, if_neg empty]
      exact (bits_refines _).bind fun _ => ih (count - min count 64) (by omega)

theorem align_refines : Refines align Read.align := by
  intro data reader sound
  have used := sound.used
  rw [align, Read.align, Step.modify_eq, Step.modify_eq]
  by_cases aligned : reader.used = 0
  · have none : reader.view.untilAligned = 0 := by
      rw [BitReader.untilAligned, view, ← used, aligned]
    rw [if_pos aligned, none]
    exact ⟨rfl, sound⟩
  · have place := sound.place
    have lt := (sound.begun aligned).lt
    have left : reader.view.untilAligned = 8 - reader.used := by
      rw [BitReader.untilAligned, view, ← used, Nat.mod_eq_of_lt (by omega)]
    have shown := @view_add reader { reader with used := 0, pos := reader.pos + (8 - reader.used) }
      (8 - reader.used) rfl rfl
    rw [if_neg aligned, left]
    refine ⟨by rw [shown], sound.source, ?_, ?_, ?_, fun some => absurd rfl some⟩
    · simp only [place]
      omega
    · simp only
      omega
    · simp only
      omega

/-! ## Bytes -/

/-- Bit by bit, a read comes up short where the bits are too few for the next byte. -/
theorem eachByte_refines (count : Nat) : Refines (eachByte count) (Read.bytes count) := by
  induction count with
  | zero => exact fun data reader sound => ⟨rfl, sound⟩
  | succ count ih =>
    intro data reader sound
    have number := bits_refines 8 data reader sound
    rw [Read.bits_eq (by decide)] at number
    by_cases enough : 8 ≤ reader.view.rest.length
    · obtain ⟨used, rest, split, eight⟩ := Bits.exists_octet enough
      have plain := Read.bytes_octet count reader.view.pos eight rest
      rw [if_pos enough, split, List.take_left' eight, List.drop_left' eight] at number
      rw [← split] at plain
      cases run : bits 8 reader with
      | ok low behind =>
        rw [run] at number
        obtain ⟨rfl, shown⟩ := EStateM.Result.ok.inj number.1
        have onward : eachByte (count + 1) reader =
            (eachByte count >>= fun found => pure (Bits.toByte used :: found)) behind := by
          simp only [eachByte, run]
          rfl
        rw [onward, plain, shown]
        exact (ih data behind number.2).bind fun found => .pure _
      | error cause behind =>
        rw [run] at number
        cases number.1
    · have plain := Read.bytes_of_few count (Nat.lt_of_not_le enough)
      rw [if_neg enough] at number
      cases run : bits 8 reader with
      | ok low behind =>
        rw [run] at number
        cases number.1
      | error cause behind =>
        rw [run] at number
        obtain ⟨rfl, shown⟩ := EStateM.Result.error.inj number.1
        have short : eachByte (count + 1) reader = .ok [] behind := by
          simp only [eachByte, run]
          rfl
        rw [short, plain, shown]
        exact ⟨rfl, number.2⟩

/-- Off the cursor, a read comes up short where the bytes end. -/
theorem bytes_refines (count : Nat) : Refines (bytes count) (Read.bytes count) := by
  intro data reader sound
  by_cases aligned : reader.used = 0
  · have left := sound.rest_of_aligned aligned
    let found := reader.cursor.rest.take count
    have run : bytes count reader = .ok found (reader.past found.length) := if_pos aligned
    have length : found.length = min count reader.cursor.rest.length := List.length_take
    have inside : found.length ≤ reader.cursor.rest.length := by omega
    have dropped : reader.cursor.rest.drop found.length = reader.cursor.rest.drop count := by
      by_cases enough : count ≤ reader.cursor.rest.length
      · rw [length, Nat.min_eq_left enough]
      · rw [List.drop_eq_nil_of_le (by omega), List.drop_eq_nil_of_le (by omega)]
    rw [run]
    refine ⟨?_, sound.past aligned inside⟩
    simp only [Read.bytes, left, Read.takeBytes_eq_take]
    rw [view_past, left, ← Bits.ofBytes_drop, dropped]
    split
    next short =>
      have few : found.length < count := short
      have none : reader.cursor.rest.drop count = [] := List.drop_eq_nil_of_le (by omega)
      rw [none]
      rfl
    next => rfl
  · have run : bytes count reader = eachByte count reader := if_neg aligned
    rw [run]
    exact eachByte_refines count data reader sound

end ByteRead

end Av1Tiling
