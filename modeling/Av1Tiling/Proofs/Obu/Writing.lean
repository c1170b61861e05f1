import Av1Tiling.Obu.Emit
import Av1Tiling.Proofs.Code.Leb128
import Av1Tiling.Proofs.Field
import Av1Tiling.Proofs.Obu.Emit

/-!
# The bytes of an OBU

An OBU is its header, the shortest code of its size and its payload (`Obu.coded`). Both ways of
writing one add exactly these bytes: the one that knows the payload, and the one that leaves room
for the size and closes the gap behind it, for which eight more bytes have to fit.
-/

namespace Av1Tiling

namespace BitWriter

/-- Both writers are between two bytes, and `behind` has the bytes `data` more. -/
structure Takes (front : BitWriter) (data : Bytes) (behind : BitWriter) : Prop where
  aligned : behind.pending = []
  contents : behind.contents = front.contents ++ data
  capacity : behind.buffer.capacity = front.buffer.capacity

namespace Takes

variable {a b c : BitWriter} {u v : Bytes}

protected theorem refl {writer : BitWriter} (aligned : writer.pending = []) :
    writer.Takes [] writer :=
  ⟨aligned, (List.append_nil _).symm, rfl⟩

protected theorem trans (first : a.Takes u b) (second : b.Takes v c) : a.Takes (u ++ v) c := by
  refine ⟨second.aligned, ?_, second.capacity.trans first.capacity⟩
  rw [second.contents, first.contents, List.append_assoc]

theorem size (takes : a.Takes u b) : b.buffer.size = a.buffer.size + u.length := by
  have length := congrArg List.length takes.contents
  simpa only [BitWriter.contents, List.length_append, BoundedBuffer.length_contents] using length

end Takes

end BitWriter

namespace Write

variable {ε α β : Type}

/-- Between two bytes, and where `slack` bytes more than `data` fit, `step` adds exactly `data` and
    yields `value`. -/
def Puts (slack : Nat) (step : EStateM ε BitWriter α) (data : Bytes) (value : α) : Prop :=
  ∀ writer : BitWriter, writer.pending = [] →
    writer.buffer.size + data.length + slack ≤ writer.buffer.capacity →
    ∃ behind, step writer = .ok value behind ∧ writer.Takes data behind

namespace Puts

variable {slack : Nat} {step : EStateM ε BitWriter α} {data more : Bytes} {value : α} {result : β}

protected theorem pure (value : α) : Puts slack (pure value : EStateM ε BitWriter α) [] value :=
  fun writer aligned _ => ⟨writer, rfl, .refl aligned⟩

protected theorem bind {next : α → EStateM ε BitWriter β} (first : Puts slack step data value)
    (second : Puts slack (next value) more result) :
    Puts slack (step >>= next) (data ++ more) result := by
  intro writer aligned fits
  rw [List.length_append] at fits
  obtain ⟨between, run₁, takes₁⟩ := first writer aligned (by omega)
  have size := takes₁.size
  have capacity := takes₁.capacity
  obtain ⟨behind, run₂, takes₂⟩ := second between takes₁.aligned (by omega)
  exact ⟨behind, by rw [Step.bind_of_ok run₁, run₂], takes₁.trans takes₂⟩

end Puts

theorem room_of_aligned {writer : BitWriter} {count : Nat} (aligned : writer.pending = [])
    (fits : writer.buffer.size + count ≤ writer.buffer.capacity) : writer.Room (8 * count) := by
  constructor
  · rw [aligned]
    decide
  · rw [BitWriter.length_bits, aligned, List.length_nil]
    omega

/-- A writer that is as many whole bytes further has taken just these bytes. -/
theorem takes_of_extends {front behind : BitWriter} {data : Bytes} (aligned : front.pending = [])
    (extends_ : front.Extends (Bits.ofBytes data) behind) : front.Takes data behind := by
  have bits := bits_of_aligned aligned
  have whole : (front.bits ++ Bits.ofBytes data).length % 8 = 0 := by
    rw [bits, List.length_append, Bits.length_ofBytes, Bits.length_ofBytes]
    omega
  obtain ⟨contents, none⟩ := extends_.contents whole
  refine ⟨none, Bits.ofBytes_injective ?_, extends_.capacity⟩
  rw [contents, bits, Bits.ofBytes_append]

theorem Appends.puts {step : EStateM ε BitWriter α} {data : Bytes} {value : α}
    (appends : Appends step (Bits.ofBytes data) value) (slack : Nat) :
    Puts slack step data value := by
  intro writer aligned fits
  have room := room_of_aligned aligned (by omega : writer.buffer.size + data.length ≤ _)
  rw [← Bits.length_ofBytes] at room
  obtain ⟨behind, run, extends_⟩ := appends writer room
  exact ⟨behind, run, takes_of_extends aligned extends_⟩

/-- A step that closes some bits by others, which only depend on how many bits the last byte has,
    closes those that were written from the start of a byte on by the same. -/
theorem closed_puts {step close : EStateM ε BitWriter Unit} {closing : Nat → Bits} {content : Bits}
    {data : Bytes}
    (closes : ∀ writer : BitWriter, writer.Room (closing writer.bits.length).length →
      ∃ behind, close writer = .ok () behind ∧
        writer.Extends (closing writer.bits.length) behind)
    (periodic : ∀ bytes more, closing (8 * bytes + more) = closing more)
    (appends : Appends step content ())
    (bits : Bits.ofBytes data = content ++ closing content.length) :
    Puts 0 (step >>= fun _ => close) data () := by
  intro writer aligned fits
  have room := room_of_aligned aligned fits
  have length := congrArg List.length bits
  rw [Bits.length_ofBytes, List.length_append] at length
  rw [length] at room
  obtain ⟨between, run₁, extends₁⟩ := appends writer (room.mono (Nat.le_add_right ..))
  have same : closing between.bits.length = closing content.length := by
    rw [extends₁.bits, bits_of_aligned aligned, List.length_append, Bits.length_ofBytes, periodic]
  have room' := extends₁.room room
  rw [← same] at room'
  obtain ⟨behind, run₂, extends₂⟩ := closes between room'
  rw [same] at extends₂
  refine ⟨behind, (Step.bind_of_ok run₁).trans run₂, takes_of_extends aligned ?_⟩
  rw [bits]
  exact extends₁.trans extends₂

/-- A step on a writer of its own passes on the bytes that it makes up there. -/
theorem aside_eq {step : Write Unit} {data : Bytes}
    (appends : Appends step (Bits.ofBytes data) ()) :
    aside step data.length = data.forM fun byte => bytes [byte] := by
  obtain ⟨own, run, takes⟩ := appends.puts 0 (.empty data.length) rfl (by
    simp [BitWriter.empty, BitWriter.onto, BoundedBuffer.empty, BoundedBuffer.size])
  have contents : own.contents = data := by
    rw [takes.contents]
    rfl
  rw [aside, EStateM.run, run]
  simp only [contents]

theorem aside_appends {step : Write Unit} {data : Bytes}
    (appends : Appends step (Bits.ofBytes data) ()) :
    Appends (aside step data.length) (Bits.ofBytes data) () := by
  rw [aside_eq appends]
  exact each_byte_appends data

end Write

namespace BoundedBuffer

/-- What was put into the room in front of some data stays there, and the data moves down to it. -/
theorem close_gap {buffer : BoundedBuffer} {front room data code : Bytes}
    (contents : buffer.contents = front ++ (room ++ data)) (short : code.length ≤ room.length) :
    ∃ patched moved, buffer.patch front.length code = .ok patched ∧
      patched.move (front.length + room.length) (front.length + room.length + data.length)
        (front.length + code.length) = .ok moved ∧
      moved.capacity = buffer.capacity ∧
      (moved.truncate (front.length + code.length + data.length)).contents =
        front ++ (code ++ data) := by
  have size : buffer.size = front.length + room.length + data.length := by
    rw [← length_contents, contents, List.length_append, List.length_append, Nat.add_assoc]
  let patched := buffer.overwrite front.length code
  have filled : patched.contents = front ++ code ++ (room.drop code.length ++ data) := by
    rw [contents_overwrite, contents, List.take_left, ← List.drop_drop, List.drop_left,
      List.drop_append_of_le_length short]
  have patchedSize : patched.size = buffer.size := by
    rw [← length_contents, filled, size]
    simp only [List.length_append, List.length_drop]
    omega
  have found : patched.contents.slice (front.length + room.length) data.length = data := by
    have split : patched.contents = front ++ code ++ room.drop code.length ++ data := by
      rw [filled, List.append_assoc (front ++ code)]
    have start : front.length + room.length = (front ++ code ++ room.drop code.length).length := by
      simp only [List.length_append, List.length_drop]
      omega
    rw [Bytes.slice, split, start, List.drop_left, List.take_length]
  have dest : front.length + code.length = (front ++ code).length := List.length_append.symm
  refine ⟨patched, patched.overwrite (front.length + code.length) data, if_pos (by omega), ?_, rfl,
    ?_⟩
  · rw [move, if_pos (by omega), Nat.add_sub_cancel_left, found]
  · have whole : front.length + code.length + data.length = (front ++ code ++ data).length := by
      rw [List.length_append, List.length_append]
    rw [contents_truncate, contents_overwrite, filled, whole, dest, List.take_left, List.take_left,
      List.append_assoc]

end BoundedBuffer

namespace ObuHeader

/-- The fields of the header fit their bits. -/
structure InRange (header : ObuHeader) : Prop where
  type : header.type.code < 16
  temporal : header.temporalId < 8
  spatial : header.spatialId < 4

/-- The bytes of a header with a size, in front of the size. -/
def opening (header : ObuHeader) : Bytes :=
  match header.extension with
  | none => [UInt8.ofNat (8 * header.type.code + 2)]
  | some extension =>
    [UInt8.ofNat (8 * header.type.code + 6),
      UInt8.ofNat (32 * extension.temporalId + 8 * extension.spatialId)]

theorem length_opening (header : ObuHeader) : header.opening.length = header.fixedSize := by
  rw [opening, fixedSize]
  cases header.extension <;> rfl

/-- The bits of the first byte. -/
def openingBits (type : Nat) (extended : Bool) : Bits :=
  [false] ++ (Bits.ofNat 4 type ++ ([extended] ++ ([true] ++ [false])))

theorem ofByte_opening {type : Nat} (fits : type < 16) :
    Bits.ofByte (UInt8.ofNat (8 * type + 2)) = openingBits type false ∧
      Bits.ofByte (UInt8.ofNat (8 * type + 6)) = openingBits type true := by
  have each : ∀ type : Fin 16, Bits.ofByte (UInt8.ofNat (8 * type + 2)) = openingBits type false ∧
      Bits.ofByte (UInt8.ofNat (8 * type + 6)) = openingBits type true := by decide
  exact each ⟨type, fits⟩

theorem ofByte_extension {temporal spatial : Nat} (temporalFits : temporal < 8)
    (spatialFits : spatial < 4) :
    Bits.ofByte (UInt8.ofNat (32 * temporal + 8 * spatial)) =
      Bits.ofNat 3 temporal ++ (Bits.ofNat 2 spatial ++ Bits.ofNat 3 0) := by
  have each : ∀ (temporal : Fin 8) (spatial : Fin 4),
      Bits.ofByte (UInt8.ofNat (32 * temporal + 8 * spatial)) =
        Bits.ofNat 3 temporal ++ (Bits.ofNat 2 spatial ++ Bits.ofNat 3 0) := by decide
  exact each ⟨temporal, temporalFits⟩ ⟨spatial, spatialFits⟩

/-- The bits of the layers, where a header says them. -/
def extensionBits : Option ObuExtension → Bits
  | none => []
  | some extension => Bits.ofNat 3 extension.temporalId ++
      (Bits.ofNat 2 extension.spatialId ++ Bits.ofNat 3 0)

/-- The bits in front of the size, or of the whole header where it says no size. -/
def fixedBits (header : ObuHeader) (sized : Bool) : Bits :=
  [false] ++ (Bits.ofNat 4 header.type.code ++ ([header.extension.isSome] ++
    ([sized] ++ ([false] ++ extensionBits header.extension))))

/-- The bits of the size, where a header says it. -/
def sizeBits : Option Nat → Bits
  | none => []
  | some size => Bits.ofBytes (Leb128.encode size)

/-- The bits of a header. -/
def bits (header : ObuHeader) : Bits :=
  header.fixedBits header.size.isSome ++ sizeBits header.size

theorem InRange.extension {header : ObuHeader} (inRange : header.InRange)
    {extension : ObuExtension} (known : header.extension = some extension) :
    extension.temporalId < 8 ∧ extension.spatialId < 4 := by
  have temporal := inRange.temporal
  have spatial := inRange.spatial
  rw [temporalId, known] at temporal
  rw [spatialId, known] at spatial
  exact ⟨temporal, spatial⟩

theorem ofBytes_opening {header : ObuHeader} (inRange : header.InRange) :
    Bits.ofBytes header.opening = header.fixedBits true := by
  obtain ⟨plain, extended⟩ := ofByte_opening inRange.type
  cases known : header.extension with
  | none => simp only [opening, fixedBits, extensionBits, known, Bits.ofBytes_singleton, plain,
      openingBits, Option.isSome_none, List.append_nil]
  | some extension =>
    obtain ⟨temporal, spatial⟩ := inRange.extension known
    simp only [opening, fixedBits, extensionBits, known, Bits.ofBytes_cons, Bits.ofBytes_nil,
      extended, ofByte_extension temporal spatial, openingBits, Option.isSome_some,
      List.append_assoc, List.append_nil]

theorem writeFixed_appends_bits {header : ObuHeader} (inRange : header.InRange) (sized : Bool) :
    Write.Appends (header.writeFixed sized) (header.fixedBits sized) () := by
  have forbidden : Write.Appends (forbiddenBit.write 0) [false] () :=
    Field.write_appends (by decide) (Write.bits_appends 0 1 (by decide))
  have type : Write.Appends (typeField.write header.type.code)
      (Bits.ofNat 4 header.type.code) () := Field.bits_write_appends _ (by decide) inRange.type
  have extended : Write.Appends (extensionFlag.writeFlag header.extension.isSome)
      [header.extension.isSome] () := Field.writeFlag_appends _ _
  have promised : Write.Appends (hasSizeField.writeFlag sized) [sized] () :=
    Field.writeFlag_appends _ _
  have reserved : Write.Appends (reservedBit.write 0) [false] () :=
    Field.bits_write_appends _ (by decide) (by decide)
  rw [writeFixed, fixedBits]
  refine forbidden.bind (type.bind (extended.bind (promised.bind (reserved.bind ?_))))
  cases known : header.extension with
  | none => exact .pure ()
  | some extension =>
    obtain ⟨temporalFits, spatialFits⟩ := inRange.extension known
    have temporal : Write.Appends (temporalIdField.write extension.temporalId)
        (Bits.ofNat 3 extension.temporalId) () := Field.bits_write_appends _ (by decide) temporalFits
    have spatial : Write.Appends (spatialIdField.write extension.spatialId)
        (Bits.ofNat 2 extension.spatialId) () := Field.bits_write_appends _ (by decide) spatialFits
    have last : Write.Appends (extensionReserved.write 0) (Bits.ofNat 3 0) () :=
      Field.bits_write_appends _ (by decide) (by decide)
    exact temporal.bind (spatial.bind last)

/-- The bits in front of the size. -/
theorem writeFixed_appends {header : ObuHeader} (inRange : header.InRange) :
    Write.Appends (header.writeFixed true) (Bits.ofBytes header.opening) () := by
  rw [ofBytes_opening inRange]
  exact writeFixed_appends_bits inRange true

theorem length_fixedBits (header : ObuHeader) (sized : Bool) :
    (header.fixedBits sized).length = 8 * header.fixedSize := by
  simp only [fixedBits, fixedSize, List.length_append, List.length_singleton, Bits.length_ofNat]
  cases header.extension with
  | none => rfl
  | some extension =>
    simp only [extensionBits, List.length_append, Bits.length_ofNat]
    rfl

/-- What stands in front of the size are whole bytes. -/
theorem exists_fixed (header : ObuHeader) (sized : Bool) :
    ∃ data, Bits.ofBytes data = header.fixedBits sized ∧ data.length = header.fixedSize := by
  have length := header.length_fixedBits sized
  have whole : (header.fixedBits sized).length % 8 = 0 := by omega
  obtain ⟨data, same⟩ := Bits.exists_ofBytes whole
  have total := congrArg List.length same
  rw [Bits.length_ofBytes] at total
  exact ⟨data, same, by omega⟩

theorem write_appends {header : ObuHeader} (inRange : header.InRange) :
    Write.Appends header.write header.bits header.byteSize := by
  obtain ⟨data, same, length⟩ := header.exists_fixed header.size.isSome
  have fixed := writeFixed_appends_bits inRange header.size.isSome
  rw [← same] at fixed
  have opened := Write.aside_appends fixed
  rw [length, same] at opened
  refine opened.bind ?_
  rw [byteSize]
  cases header.size with
  | none => exact .pure header.fixedSize
  | some size =>
    have sized := (Leb128.write_appends size).map (header.fixedSize + ·)
    rwa [Leb128.length_encode] at sized

end ObuHeader

namespace Obu

/-- The bytes of an OBU with the shortest code of its size. -/
def coded (header : ObuHeader) (payload : Bytes) : Bytes :=
  header.opening ++ (Leb128.encode payload.length ++ payload)

theorem length_coded (header : ObuHeader) (payload : Bytes) :
    (coded header payload).length =
      header.fixedSize + (Leb128.encode payload.length).length + payload.length := by
  rw [coded, List.length_append, List.length_append, ObuHeader.length_opening, Nat.add_assoc]

/-- An OBU whose payload is known. -/
theorem write_appends {type : ObuType} {extension : Option ObuExtension} {size : Option Nat}
    (inRange : ObuHeader.InRange ⟨type, size, extension⟩) (payload : Bytes) :
    Write.Appends (write type extension payload)
      (Bits.ofBytes (coded ⟨type, size, extension⟩ payload))
      (coded ⟨type, size, extension⟩ payload).length := by
  let header : ObuHeader := ⟨type, some payload.length, extension⟩
  have narrow : header.InRange := ⟨inRange.1, inRange.2, inRange.3⟩
  have bits : Bits.ofBytes (coded ⟨type, size, extension⟩ payload) =
      header.bits ++ Bits.ofBytes payload := by
    rw [coded, Bits.ofBytes_append, Bits.ofBytes_append, ObuHeader.ofBytes_opening inRange,
      ← List.append_assoc]
    rfl
  have length : (coded ⟨type, size, extension⟩ payload).length =
      header.byteSize + payload.length := by
    rw [length_coded, Leb128.length_encode]
    rfl
  rw [bits, length]
  exact (ObuHeader.write_appends narrow).emit.bind ((Write.bytes_appends payload).emit.map fun _ =>
    header.byteSize + payload.length)

end Obu

/-- A step of whole bytes is a step of OBUs that writes the same. -/
theorem Write.Puts.emit {α : Type} {slack : Nat} {step : Write α} {data : Bytes} {value : α}
    (puts : Write.Puts slack step data value) :
    Write.Puts slack (liftM step : Emit α) data value := by
  intro writer aligned fits
  obtain ⟨behind, run, takes⟩ := puts writer aligned fits
  exact ⟨behind, Emit.emit_eq_ok.2 run, takes⟩

namespace Emit

variable {slack : Nat} {writer behind : BitWriter}

theorem requireAligned_run (boundary : Boundary) {writer : BitWriter}
    (aligned : writer.pending = []) : requireAligned boundary writer = .ok () writer := by
  have whole : writer.aligned = true := Write.aligned_iff.2 aligned
  rw [requireAligned, Step.get_bind, whole]
  rfl

theorem rework_run {change : BoundedBuffer → Except StreamError BoundedBuffer} {writer : BitWriter}
    {buffer : BoundedBuffer} (success : change writer.buffer = .ok buffer) :
    rework change writer = .ok () { writer with buffer } := by
  rw [rework, Step.get_bind, lift_bind success]
  rfl

theorem liftFault_bind {α β : Type} {result : Except Fault α} {value : α}
    (success : result = .ok value) (next : α → Emit β) :
    ((liftM result : Emit α) >>= next) = next value := by
  rw [success]
  rfl

/-- There is room for the size of every payload. -/
theorem length_size_le {value : Nat} (fits : value ≤ maxPayload) :
    (Leb128.encode value).length ≤ reservation := by
  have narrow : value < 128 ^ (4 + 1) := by
    rw [maxPayload] at fits
    omega
  rw [Leb128.length_encode]
  exact Nat.le_trans (Leb128.size_le narrow) (by decide)

/-- The size goes in front of the data, which moves down to it. -/
theorem finalizeSize_run {writer : BitWriter} {front data : Bytes} (aligned : writer.pending = [])
    (contents : writer.contents = front ++ (List.replicate reservation 0 ++ data))
    (fits : data.length ≤ maxPayload) :
    ∃ behind, finalizeSize ⟨front.length⟩ writer = .ok data.length behind ∧
      behind.pending = [] ∧ behind.buffer.capacity = writer.buffer.capacity ∧
      behind.contents = front ++ (Leb128.encode data.length ++ data) := by
  have short : (Leb128.encode data.length).length ≤
      (List.replicate reservation (0 : UInt8)).length := by
    rw [List.length_replicate]
    exact length_size_le fits
  obtain ⟨patched, moved, patch, move, capacity, closed⟩ := BoundedBuffer.close_gap contents short
  rw [List.length_replicate] at move
  have stop : writer.buffer.size = front.length + reservation + data.length := by
    have length := congrArg List.length contents
    simp only [BitWriter.contents, BoundedBuffer.length_contents, List.length_append,
      List.length_replicate] at length
    omega
  have length : Checked.sub writer.buffer.size (front.length + reservation) = .ok data.length := by
    rw [Checked.sub_eq_ok (by omega), stop, Nat.add_sub_cancel_left]
  have sized : size writer = .ok writer.buffer.size writer := rfl
  refine ⟨{ writer with
    buffer := moved.truncate (front.length + (Leb128.encode data.length).length + data.length) },
    ?_, aligned, capacity, closed⟩
  rw [finalizeSize, Step.bind_of_ok (requireAligned_run .finalizeSize aligned),
    Step.bind_of_ok sized, liftFault_bind length, if_neg (Nat.not_lt.2 fits)]
  rw [← stop] at move
  exact (Step.bind_of_ok (rework_run patch)).trans (Step.bind_of_ok (rework_run move))

/-- A payload, with the bits that close it where it has them. -/
def closed (trailing : Bool) (payload : Emit Unit) : Emit Unit := do
  payload
  if trailing then trailingBits

/-- A payload is closed from its own bits on, wherever it starts between two bytes. -/
theorem closed_puts {payload : Emit Unit} {content : Bits} {data : Bytes}
    (appends : Write.Appends payload content ())
    (bits : Bits.ofBytes data = content ++ closing content.length) :
    Write.Puts 0 (closed true payload) data () := by
  refine Write.closed_puts (fun _ room => trailingBits_extends room) (fun bytes more => ?_) appends
    bits
  rw [closing, closing, Nat.add_assoc, Write.padding_add]

/-! ## The whole OBU -/

/-- What comes in front of a payload. -/
def started (header : ObuHeader) : Emit SizeField := do
  requireAligned .startObu
  let _ ← header.writeWithoutSize
  reserveSize

/-- The writer that a payload is handed, behind the header and the room for the size. -/
def handed (header : ObuHeader) (writer : BitWriter) : BitWriter :=
  writer.put (header.opening ++ List.replicate reservation 0)

theorem reserveSize_run (aligned : writer.pending = [])
    (fits : writer.buffer.size + reservation ≤ writer.buffer.capacity) :
    reserveSize writer =
      .ok ⟨writer.buffer.size⟩ (writer.put (List.replicate reservation 0)) := by
  have word (writer : BitWriter) (aligned : writer.pending = [])
      (fits : writer.buffer.size + 4 ≤ writer.buffer.capacity) :
      (liftM (Write.bytes (Bytes.ofNatBE 4 0)) : Emit Unit) writer =
        .ok () (writer.put (Bytes.ofNatBE 4 0)) := emit_eq_ok.2 (Write.bytes_run aligned fits)
  rw [reservation] at fits
  have sized : size writer = .ok writer.buffer.size writer := rfl
  let between := writer.put (Bytes.ofNatBE 4 0)
  have half : between.buffer.size = writer.buffer.size + 4 := writer.size_put (Bytes.ofNatBE 4 0)
  have room : between.buffer.size + 4 ≤ writer.buffer.capacity := by omega
  have second := word between aligned room
  rw [BitWriter.put_put] at second
  rw [reserveSize, Step.bind_of_ok (requireAligned_run .reserveSize aligned), Step.bind_of_ok sized,
    Step.bind_of_ok (word writer aligned (by omega)), Step.bind_of_ok second]
  rfl

/-- Where there is room for it, all in front of a payload is written. -/
theorem started_run {header : ObuHeader} (inRange : header.InRange) (aligned : writer.pending = [])
    (fits : writer.buffer.size + header.fixedSize + reservation ≤ writer.buffer.capacity) :
    started header writer =
      .ok ⟨writer.buffer.size + header.fixedSize⟩ (handed header writer) := by
  have length := header.length_opening
  have own := Write.aside_eq (ObuHeader.writeFixed_appends inRange)
  rw [length] at own
  have opened : (liftM header.writeWithoutSize : Emit Nat) writer =
      .ok header.fixedSize (writer.put header.opening) := by
    apply emit_eq_ok.2
    rw [ObuHeader.writeWithoutSize, own]
    exact Step.bind_of_ok (Write.each_byte_run aligned (by omega))
  let first := writer.put header.opening
  have size : first.buffer.size = writer.buffer.size + header.fixedSize := by
    rw [← length]
    exact writer.size_put header.opening
  have room : first.buffer.size + reservation ≤ writer.buffer.capacity := by omega
  have reserved : reserveSize first =
      .ok ⟨first.buffer.size⟩ (first.put (List.replicate reservation 0)) :=
    reserveSize_run aligned room
  rw [size, BitWriter.put_put] at reserved
  rw [started, Step.bind_of_ok (requireAligned_run .startObu aligned), Step.bind_of_ok opened]
  exact reserved

theorem obu_started (header : ObuHeader) (trailing : Bool) (payload : Emit Unit) :
    obu header trailing payload = (do
      let field ← started header
      closed trailing payload
      requireAligned .endObu
      finalizeSize field) := by
  cases trailing <;>
    simp only [obu, started, closed, bind_assoc, pure_bind, if_true, if_false, Bool.false_eq_true]

theorem size_handed (header : ObuHeader) (writer : BitWriter) :
    (handed header writer).buffer.size = writer.buffer.size + header.fixedSize + reservation := by
  rw [handed, BitWriter.size_put, List.length_append, List.length_replicate,
    header.length_opening, Nat.add_assoc]

/-- The payload stands behind the room for its size. -/
theorem contents_of_takes {data : Bytes} (takes : (handed header writer).Takes data behind) :
    behind.contents = writer.contents ++ header.opening ++ (List.replicate reservation 0 ++ data) := by
  rw [takes.contents, handed, BitWriter.contents_put]
  simp only [List.append_assoc]

theorem length_front (header : ObuHeader) (writer : BitWriter) :
    (writer.contents ++ header.opening).length = writer.buffer.size + header.fixedSize := by
  rw [List.length_append, header.length_opening, BitWriter.contents,
    BoundedBuffer.length_contents]

/-- An OBU whose payload has ended with a byte, wherever that brought the writer. -/
theorem obu_run {header : ObuHeader} (inRange : header.InRange) {trailing : Bool}
    {payload : Emit Unit} {third : BitWriter} {data : Bytes} (aligned : writer.pending = [])
    (room : writer.buffer.size + header.fixedSize + reservation ≤ writer.buffer.capacity)
    (run : closed trailing payload (handed header writer) = .ok () third)
    (takes : (handed header writer).Takes data third) (fits : data.length ≤ maxPayload) :
    ∃ behind, obu header trailing payload writer = .ok data.length behind ∧
      writer.Takes (Obu.coded header data) behind := by
  obtain ⟨behind, last, aligned', capacity, contents⟩ :=
    finalizeSize_run takes.aligned (contents_of_takes takes) fits
  rw [length_front] at last
  refine ⟨behind, ?_, aligned', ?_, capacity.trans takes.capacity⟩
  · rw [obu_started, Step.bind_of_ok (started_run inRange aligned room), Step.bind_of_ok run,
      Step.bind_of_ok (requireAligned_run .endObu takes.aligned), last]
  · rw [contents, Obu.coded, List.append_assoc]

/-- An OBU is written behind what is there, whatever its payload turns out to be. -/
theorem obu_puts {header : ObuHeader} (inRange : header.InRange) {trailing : Bool}
    {payload : Emit Unit} {data : Bytes} (puts : Write.Puts 0 (closed trailing payload) data ())
    (fits : data.length ≤ maxPayload) :
    Write.Puts reservation (obu header trailing payload) (Obu.coded header data) data.length := by
  intro writer aligned room
  rw [Obu.length_coded] at room
  have behind : (handed header writer).buffer.size + data.length + 0 ≤ writer.buffer.capacity := by
    rw [size_handed]
    omega
  obtain ⟨third, run, takes⟩ := puts (handed header writer) aligned behind
  exact obu_run inRange aligned (by omega) run takes fits

end Emit

end Av1Tiling
