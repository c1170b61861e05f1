import Av1Tiling.Obu.Stream
import Av1Tiling.Proofs.Bytes.Extraction
import Av1Tiling.Proofs.Obu.Writing

/-!
# Reading written OBUs

A unit of OBUs as they are written is read as these OBUs, one after the other to the end of the
unit.
-/

namespace Av1Tiling

/-- A field of `count` bits is read from the bits of its value. -/
theorem Field.bits_read_yields (name : String) {count value : Nat} (pos : Nat)
    (narrow : count < 32) (fits : value < 2 ^ count) :
    (Field.bits name count).read.Yields pos (Bits.ofNat count value) value := by
  have max : (Field.bits name count).max = 2 ^ count - 1 := if_neg (by omega)
  have decodes := Field.read_decodes (Field.bits name count) (Read.bits_decodes count)
  refine decodes.yields value pos ⟨⟨by omega, fits⟩, Nat.zero_le _, ?_⟩
  rw [max]
  omega

namespace ObuHeader

/-- The size of the header, where it says one, is a number that can be read. -/
def SizeFits (header : ObuHeader) : Prop :=
  ∀ size, header.size = some size → size ≤ Leb128.maxValue

/-- What is there is read from its code, and what is left out from no bits. -/
theorem readOptional_yields {α : Type} {step : Read α} {found : Option α} {code : Bits}
    (absent : found = none → code = [])
    (present : ∀ value, found = some value → ∀ pos, step.Yields pos code value) (pos : Nat) :
    (readOptional found.isSome step).Yields pos code found := by
  cases found with
  | none =>
    rw [absent rfl]
    exact .pure none pos
  | some value => exact (present value rfl pos).map some

theorem readExtension_yields {extension : ObuExtension} (temporal : extension.temporalId < 8)
    (spatial : extension.spatialId < 4) (pos : Nat) :
    readExtension.Yields pos (Bits.ofNat 3 extension.temporalId ++
      (Bits.ofNat 2 extension.spatialId ++ Bits.ofNat 3 0)) extension := by
  rw [← List.append_nil (Bits.ofNat 3 0)]
  exact (Field.bits_read_yields "temporal_id" _ (by decide) temporal).bind
    ((Field.bits_read_yields "spatial_id" _ (by decide) spatial).bind
    ((Field.bits_read_yields "extension_header_reserved_3bits" _ (by decide) (by decide)).bind
      (.pure _ _)))

/-- A header is read from its bits and those of its size. -/
theorem read_yields_bits {header : ObuHeader} (inRange : header.InRange)
    (own : ObuType.ofCode header.type.code = header.type) (fits : header.SizeFits) (pos : Nat) :
    read.Yields pos (header.fixedBits header.size.isSome ++ sizeBits header.size) header := by
  have forbidden (pos : Nat) : forbiddenBit.read.Yields pos [false] 0 := by
    have decodes := Field.read_decodes forbiddenBit (Read.bits_decodes 1)
    exact decodes.yields 0 pos (by decide)
  have type (pos : Nat) : typeField.read.Yields pos (Bits.ofNat 4 header.type.code)
      header.type.code := Field.bits_read_yields "obu_type" pos (by decide) inRange.type
  have flag (name : String) (value : Bool) (pos : Nat) :
      (Field.flag name).readFlag.Yields pos [value] value :=
    (Field.readFlag_decodes name).yields value pos trivial
  have reserved (pos : Nat) : reservedBit.read.Yields pos [false] 0 :=
    Field.bits_read_yields "obu_reserved_1bit" pos (by decide) (by decide : 0 < 2 ^ 1)
  have layers (pos : Nat) : (readOptional header.extension.isSome readExtension).Yields pos
      (extensionBits header.extension) header.extension := by
    refine readOptional_yields (fun absent => by rw [absent]; rfl) (fun extension known pos => ?_) pos
    obtain ⟨temporal, spatial⟩ := inRange.extension known
    rw [known]
    exact readExtension_yields temporal spatial pos
  have size (pos : Nat) : (readOptional header.size.isSome Leb128.read).Yields pos
      (sizeBits header.size) header.size := by
    refine readOptional_yields (fun absent => by rw [absent]; rfl) (fun size known pos => ?_) pos
    rw [known]
    exact Leb128.read_yields pos (fits size known)
  have behind (pos : Nat) : (do
      let extension ← readOptional header.extension.isSome readExtension
      let size ← readOptional header.size.isSome Leb128.read
      return { type := .ofCode header.type.code, size, extension } : Read ObuHeader).Yields pos
      (extensionBits header.extension ++ (sizeBits header.size ++ [])) header := by
    refine (layers pos).bind ((size _).bind ?_)
    rw [own]
    exact .pure header _
  have bits : header.fixedBits header.size.isSome ++ sizeBits header.size =
      [false] ++ (Bits.ofNat 4 header.type.code ++ ([header.extension.isSome] ++
        ([header.size.isSome] ++ ([false] ++
          (extensionBits header.extension ++ (sizeBits header.size ++ [])))))) := by
    simp only [fixedBits, List.append_assoc, List.append_nil]
  rw [bits]
  exact (forbidden _).bind ((type _).bind ((flag _ _ _).bind ((flag _ _ _).bind
    ((reserved _).bind (behind _)))))

/-- A header with a size is read as it was written. -/
theorem read_yields {header : ObuHeader} (inRange : header.InRange)
    (own : ObuType.ofCode header.type.code = header.type) {size : Nat}
    (fits : size ≤ Leb128.maxValue) (pos : Nat) :
    read.Yields pos (Bits.ofBytes (header.opening ++ Leb128.encode size))
      ⟨header.type, some size, header.extension⟩ := by
  have narrow : InRange ⟨header.type, some size, header.extension⟩ :=
    ⟨inRange.type, inRange.temporal, inRange.spatial⟩
  have small : SizeFits ⟨header.type, some size, header.extension⟩ := by
    intro found same
    cases same
    exact fits
  rw [Bits.ofBytes_append, ofBytes_opening inRange]
  exact read_yields_bits narrow own small pos

end ObuHeader

/-- The next bytes are there. -/
theorem Cursor.extract_of_rest {cursor : Cursor} {bytes more : Bytes}
    (inside : cursor.pos ≤ cursor.data.length) (here : cursor.rest = bytes ++ more) :
    cursor.extract bytes.length = .ok (bytes, cursor.seek (cursor.pos + bytes.length)) := by
  have length := congrArg List.length here
  rw [Cursor.rest, List.length_drop, List.length_append] at length
  have found : cursor.data.slice cursor.pos bytes.length = bytes := by
    rw [Bytes.slice, ← Cursor.rest, here, List.take_left]
  rw [extract_of_inside (by omega), found]

namespace Obu

/-- The OBU with this payload where it is written at `offset`. -/
def placed (offset : Nat) (header : ObuHeader) (payload : Bytes) : Obu where
  header := { header with size := some payload.length }
  offset := offset
  headerSize := header.fixedSize + (Leb128.encode payload.length).length
  payload := payload

/-- Some headers and payloads as the OBUs of a unit, from `offset` on. -/
def row : (offset : Nat) → List (ObuHeader × Bytes) → List Obu
  | _, [] => []
  | offset, (header, payload) :: rest =>
    placed offset header payload :: row (offset + (coded header payload).length) rest

/-- The bytes of these OBUs. -/
def rowBytes (items : List (ObuHeader × Bytes)) : Bytes :=
  items.flatMap fun item => coded item.1 item.2

/-- The header can be read as it was written, and the size of the payload can be said. -/
structure Writable (header : ObuHeader) (payload : Bytes) : Prop where
  inRange : header.InRange
  known : ObuType.ofCode header.type.code = header.type
  small : payload.length ≤ Emit.maxPayload

/-- A header that is read from some bytes takes just these, whatever follows them. -/
theorem readHeader_of_yields {header : ObuHeader} {bytes rest : Bytes} {cursor : Cursor}
    (yields : ObuHeader.read.Yields 0 (Bits.ofBytes bytes) header)
    (here : cursor.rest = bytes ++ rest) :
    readHeader cursor = .ok header (cursor.seek (cursor.pos + bytes.length)) := by
  rw [readHeader, Read.runOn, EStateM.run, BitReader.ofBytes, here, Bits.ofBytes_append,
    yields (Bits.ofBytes rest)]
  simp only [BitReader.bytePos, Bits.length_ofBytes]
  congr 2
  omega

theorem readHeader_coded {header : ObuHeader} {payload rest : Bytes} {cursor : Cursor}
    (writable : Writable header payload)
    (here : cursor.rest = header.opening ++ Leb128.encode payload.length ++ rest) :
    readHeader cursor = .ok { header with size := some payload.length }
      (cursor.seek (cursor.pos + (header.opening ++ Leb128.encode payload.length).length)) :=
  readHeader_of_yields (ObuHeader.read_yields writable.inRange writable.known writable.small 0) here

/-- An OBU is read as it was written. -/
theorem read_coded {header : ObuHeader} {payload rest : Bytes} {cursor : Cursor}
    (writable : Writable header payload) (here : cursor.rest = coded header payload ++ rest) :
    read cursor = .ok (placed cursor.pos header payload)
      (cursor.seek (cursor.pos + (coded header payload).length)) := by
  have front : cursor.rest =
      header.opening ++ Leb128.encode payload.length ++ (payload ++ rest) := by
    rw [here, coded]
    simp only [List.append_assoc]
  have length := congrArg List.length front
  have size : (header.opening ++ Leb128.encode payload.length).length =
      header.fixedSize + (Leb128.encode payload.length).length := by
    rw [List.length_append, header.length_opening]
  rw [Cursor.rest, List.length_drop, List.length_append, size] at length
  have some : 1 ≤ header.fixedSize := by
    rw [ObuHeader.fixedSize]
    split <;> decide
  have extracted := Cursor.extract_of_rest (by simp only [Cursor.seek]; omega)
    (Cursor.rest_seek front)
  rw [read, readHeader_coded writable front]
  simp only [extracted]
  simp only [Cursor.seek, placed, length_coded, size, Nat.add_assoc, Nat.add_sub_cancel_left]

theorem coded_ne_nil (header : ObuHeader) (payload : Bytes) : coded header payload ≠ [] := by
  intro empty
  have length := congrArg List.length empty
  rw [length_coded, ObuHeader.fixedSize] at length
  split at length <;> simp only [List.length_nil] at length <;> omega

theorem readMany_row {items : List (ObuHeader × Bytes)} {count : Nat} {cursor : Cursor}
    (writable : ∀ item ∈ items, Writable item.1 item.2) (here : cursor.rest = rowBytes items)
    (enough : items.length ≤ count) :
    (readMany count cursor).1 = (row cursor.pos items).map .ok ∧
      (readMany count cursor).2.remaining = 0 := by
  induction items generalizing count cursor with
  | nil =>
    have none : cursor.remaining = 0 := by
      rw [Cursor.remaining_eq_length_rest, here]
      rfl
    cases count with
    | zero => exact ⟨rfl, none⟩
    | succ count =>
      rw [readMany, if_pos none]
      exact ⟨rfl, none⟩
  | cons item rest ih =>
    obtain ⟨header, payload⟩ := item
    obtain ⟨own, others⟩ := List.forall_mem_cons.1 writable
    obtain ⟨count, rfl⟩ : ∃ left, count = left + 1 := ⟨count - 1, by
      rw [List.length_cons] at enough
      omega⟩
    have front : cursor.rest = coded header payload ++ rowBytes rest := here
    have some : ¬cursor.remaining = 0 := by
      rw [Cursor.remaining_eq_length_rest, front, List.length_eq_zero_iff]
      exact List.append_ne_nil_of_left_ne_nil (coded_ne_nil header payload) _
    have later := ih others (Cursor.rest_seek front) (Nat.le_of_succ_le_succ enough)
    rw [readMany, if_neg some, read_coded own front]
    exact ⟨congrArg (_ :: ·) later.1, later.2⟩

theorem length_le_rowBytes (items : List (ObuHeader × Bytes)) :
    items.length ≤ (rowBytes items).length := by
  induction items with
  | nil => exact Nat.le_refl 0
  | cons item rest ih =>
    have some := List.length_pos_iff.2 (coded_ne_nil item.1 item.2)
    have whole : (rowBytes (item :: rest)).length =
        (coded item.1 item.2).length + (rowBytes rest).length := by
      rw [rowBytes, List.flatMap_cons, List.length_append]
      rfl
    rw [whole, List.length_cons]
    omega

/-- A unit that was written is read as the OBUs that were written. -/
theorem readAll_row {items : List (ObuHeader × Bytes)}
    (writable : ∀ item ∈ items, Writable item.1 item.2) :
    (readAll (rowBytes items)).1 = (row 0 items).map .ok ∧
      (readAll (rowBytes items)).2.remaining = 0 :=
  readMany_row writable rfl (length_le_rowBytes items)

end Obu

end Av1Tiling
