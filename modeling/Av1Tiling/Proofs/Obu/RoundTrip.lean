import Av1Tiling.Proofs.Obu.Rereading

/-!
# Streams of OBUs that are read back

OBUs that were written one behind the other are read as these OBUs, each of them at the place where
it was written and as long as the writer said.
-/

namespace Av1Tiling.Obu

/-- The header of an OBU with this payload. -/
def sizedHeader (header : ObuHeader) (payload : Bytes) : ObuHeader :=
  { header with size := some payload.length }

/-- Number of bytes that an OBU takes. -/
def writtenSize (header : ObuHeader) (payload : Bytes) : Nat :=
  (sizedHeader header payload).byteSize + payload.length

/-- Number of bytes that OBUs take one behind the other. -/
def totalSize : List (ObuHeader × Bytes) → Nat
  | [] => 0
  | (header, payload) :: rest => writtenSize header payload + totalSize rest

/-- The OBU is the one that was written behind `offset` bytes, in `count` bytes. -/
structure ReadBack (header : ObuHeader) (payload : Bytes) (offset count : Nat) (obu : Obu) :
    Prop where
  type : obu.header.type = header.type
  extension : obu.header.extension = header.extension
  size : obu.header.size = some payload.length
  payload : obu.payload = payload
  offset : obu.offset = offset
  headerSize : obu.headerSize = obu.header.byteSize
  unitSize : obu.unitSize = count

/-- The OBUs `obus` are those that were written one behind the other from `writer` to `behind`. -/
inductive AllReadBack : BitWriter → List (ObuHeader × Bytes) → List Obu → BitWriter → Prop
  | nil (writer : BitWriter) : AllReadBack writer [] [] writer
  | cons {writer between behind : BitWriter} {header : ObuHeader} {payload : Bytes} {count : Nat}
      {rest : List (ObuHeader × Bytes)} {obu : Obu} {obus : List Obu}
      (written : write header.type header.extension payload writer = .ok count between)
      (first : ReadBack header payload writer.contents.length count obu)
      (others : AllReadBack between rest obus behind) :
      AllReadBack writer ((header, payload) :: rest) (obu :: obus) behind

theorem byteSize_sizedHeader (header : ObuHeader) (payload : Bytes) :
    (sizedHeader header payload).byteSize =
      header.fixedSize + (Leb128.encode payload.length).length := by
  rw [Leb128.length_encode]
  rfl

theorem length_coded_eq (header : ObuHeader) (payload : Bytes) :
    (coded header payload).length = writtenSize header payload := by
  rw [length_coded, writtenSize, byteSize_sizedHeader]

theorem length_rowBytes (items : List (ObuHeader × Bytes)) :
    (rowBytes items).length = totalSize items := by
  induction items with
  | nil => rfl
  | cons item rest ih =>
    rw [rowBytes, List.flatMap_cons, List.length_append, length_coded_eq, ← rowBytes, ih]
    rfl

theorem placed_readBack (offset : Nat) (header : ObuHeader) (payload : Bytes) :
    ReadBack header payload offset (coded header payload).length (placed offset header payload) where
  type := rfl
  extension := rfl
  size := rfl
  payload := rfl
  offset := rfl
  headerSize := (byteSize_sizedHeader header payload).symm
  unitSize := (length_coded header payload).symm

/-- An OBU goes behind what is there, between two bytes. -/
theorem write_puts {header : ObuHeader} (inRange : header.InRange) (payload : Bytes) :
    Write.Puts 0 (write header.type header.extension payload) (coded header payload)
      (coded header payload).length := by
  have appends : Write.Appends (write header.type header.extension payload)
      (Bits.ofBytes (coded header payload)) (coded header payload).length :=
    write_appends inRange payload
  exact appends.puts 0

theorem row_readBack {items : List (ObuHeader × Bytes)} {writer : BitWriter}
    (writable : ∀ item ∈ items, Writable item.1 item.2) (aligned : writer.pending = [])
    (room : writer.buffer.size + (rowBytes items).length ≤ writer.buffer.capacity) :
    ∃ behind, AllReadBack writer items (row writer.contents.length items) behind ∧
      writer.Takes (rowBytes items) behind := by
  induction items generalizing writer with
  | nil => exact ⟨writer, .nil writer, .refl aligned⟩
  | cons item rest ih =>
    obtain ⟨header, payload⟩ := item
    obtain ⟨own, others⟩ := List.forall_mem_cons.1 writable
    have inRange : header.InRange := own.inRange
    have whole : rowBytes ((header, payload) :: rest) = coded header payload ++ rowBytes rest := rfl
    rw [whole, List.length_append] at room
    obtain ⟨between, run, takes⟩ := write_puts inRange payload writer aligned (by omega)
    have size := takes.size
    have capacity := takes.capacity
    obtain ⟨behind, later, further⟩ := ih others takes.aligned (by omega)
    have start : between.contents.length =
        writer.contents.length + (coded header payload).length := by
      rw [takes.contents, List.length_append]
    rw [start] at later
    exact ⟨behind, .cons run (placed_readBack _ header payload) later, takes.trans further⟩

/-- OBUs that are written into an empty output with room for them are read, to the end of what was
    written and without an error, as the OBUs that were written. -/
theorem write_readAll {items : List (ObuHeader × Bytes)} {capacity : Nat}
    (writable : ∀ item ∈ items, Writable item.1 item.2)
    (room : totalSize items ≤ capacity) :
    ∃ obus behind, AllReadBack (.empty capacity) items obus behind ∧
      (readAll behind.contents).1 = obus.map .ok ∧
      (readAll behind.contents).2.remaining = 0 := by
  rw [← length_rowBytes] at room
  have fits : (BitWriter.empty capacity).buffer.size + (rowBytes items).length ≤ capacity := by
    show 0 + (rowBytes items).length ≤ capacity
    omega
  have aligned : (BitWriter.empty capacity).pending = [] := rfl
  obtain ⟨behind, all, takes⟩ := row_readBack writable aligned fits
  have contents : behind.contents = rowBytes items := takes.contents
  obtain ⟨found, done⟩ := readAll_row writable
  rw [← contents] at found done
  exact ⟨row 0 items, behind, all, found, done⟩

/-- A delimiter without payload, a frame of some layers, and an OBU without a meaning whose size
    takes two bytes. -/
def threeObus : List (ObuHeader × Bytes) := [
  (⟨.temporalDelimiter, none, none⟩, []),
  (⟨.frame, none, some ⟨7, 3⟩⟩, [0x10, 0x80]),
  (⟨.reserved 9, none, none⟩, List.replicate 200 0xFF)]

theorem write_readAll_three :
    ((∀ item ∈ threeObus, Writable item.1 item.2) ∧ totalSize threeObus ≤ 210) ∧
      ∃ obus behind, AllReadBack (.empty 210) threeObus obus behind ∧
        (readAll behind.contents).1 = obus.map .ok ∧
        (readAll behind.contents).2.remaining = 0 := by
  have writable : ∀ item ∈ threeObus, Writable item.1 item.2 := by
    simp only [threeObus, List.forall_mem_cons]
    refine ⟨⟨⟨by decide, by decide, by decide⟩, rfl, by decide⟩,
      ⟨⟨by decide, by decide, by decide⟩, rfl, by decide⟩,
      ⟨⟨by decide, by decide, by decide⟩, rfl, ?_⟩, nofun⟩
    rw [List.length_replicate]
    decide
  have room : totalSize threeObus ≤ 210 := by decide +kernel
  exact ⟨⟨writable, room⟩, write_readAll writable room⟩

end Av1Tiling.Obu
