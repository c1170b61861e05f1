import Av1Tiling.Packet.TileInfo
import Av1Tiling.Proofs.Bytes.Extraction
import Av1Tiling.Proofs.Checked
import Av1Tiling.Proofs.Steps

/-!
# Tile infos and their bytes

A tile info whose numbers fit 32 bits is read back from its bytes, and so a tile packet is taken
apart into the tile info and the unit that it was put together from.
-/

namespace Av1Tiling

namespace Cursor

variable {ε α β : Type}

/-- In front of `bytes`, `step` yields `value` and goes on behind them, whatever follows. -/
def Yields (step : EStateM ε Cursor α) (bytes : Bytes) (value : α) : Prop :=
  ∀ (cursor : Cursor) (rest : Bytes), cursor.rest = bytes ++ rest →
    step cursor = .ok value (cursor.seek (cursor.pos + bytes.length))

namespace Yields

variable {step : EStateM ε Cursor α} {bytes more : Bytes} {value : α} {result : β}

protected theorem pure (value : α) : Yields (pure value : EStateM ε Cursor α) [] value :=
  fun _ _ _ => rfl

protected theorem bind {next : α → EStateM ε Cursor β} (first : Yields step bytes value)
    (second : Yields (next value) more result) : Yields (step >>= next) (bytes ++ more) result := by
  intro cursor rest split
  rw [List.append_assoc] at split
  rw [Step.bind_of_ok (first cursor (more ++ rest) split), second _ rest (rest_seek split),
    List.length_append, ← Nat.add_assoc]
  rfl

end Yields

end Cursor

namespace TileInfo

/-- A number fits 32 bits. -/
def Word (value : Nat) : Prop :=
  value < 2 ^ 32

/-- The bytes of some numbers. -/
def wordRow (values : List Nat) : Bytes :=
  values.flatMap (Bytes.ofNatLE 4)

theorem wordRow_cons (value : Nat) (rest : List Nat) :
    wordRow (value :: rest) = Bytes.ofNatLE 4 value ++ wordRow rest := rfl

theorem wordRow_append (front back : List Nat) :
    wordRow (front ++ back) = wordRow front ++ wordRow back :=
  List.flatMap_append

theorem length_wordRow (values : List Nat) : (wordRow values).length = 4 * values.length := by
  induction values with
  | nil => rfl
  | cons value rest ih =>
    rw [wordRow_cons, List.length_append, ih, Bytes.length_ofNatLE, List.length_cons]
    omega

theorem wordRow_zeros (count : Nat) :
    wordRow (List.replicate count 0) = List.replicate (4 * count) 0 := by
  induction count with
  | zero => rfl
  | succ count ih =>
    rw [List.replicate_succ, wordRow_cons, ih]
    rfl

theorem readWord_yields {value : Nat} (word : Word value) :
    Cursor.Yields readWord (Bytes.ofNatLE 4 value) value := by
  intro cursor rest split
  have length := congrArg List.length split
  rw [Cursor.rest, List.length_drop, List.length_append, Bytes.length_ofNatLE] at length
  have inside : cursor.pos + 4 ≤ cursor.data.length := by omega
  have taken : cursor.data.slice cursor.pos 4 = Bytes.ofNatLE 4 value := by
    rw [Bytes.slice, ← Cursor.rest, split, List.take_left' (Bytes.length_ofNatLE 4 value)]
  simp only [readWord, Cursor.extract_of_inside inside, taken, Bytes.toNatLE_ofNatLE,
    Bytes.length_ofNatLE]
  rw [Nat.mod_eq_of_lt word]

theorem readWords_yields {values : List Nat} (words : ∀ value ∈ values, Word value) :
    Cursor.Yields (readWords values.length) (wordRow values) values := by
  induction values with
  | nil => exact .pure _
  | cons value rest ih =>
    have first := readWord_yields (words value List.mem_cons_self)
    have behind := ih fun value member => words value (.tail _ member)
    have later : Cursor.Yields (readWords rest.length >>= fun rest => pure (value :: rest))
        (wordRow rest ++ []) (value :: rest) := behind.bind (.pure _)
    rw [List.append_nil] at later
    exact first.bind later

/-- Some numbers, with zeros up to `count` of them. -/
def padded (count : Nat) (values : List Nat) : List Nat :=
  values ++ List.replicate (count - values.length) 0

theorem length_padded {count : Nat} {values : List Nat} (few : values.length ≤ count) :
    (padded count values).length = count := by
  rw [padded, List.length_append, List.length_replicate]
  omega

theorem wordBytes_yields {count : Nat} {values : List Nat} (few : values.length ≤ count)
    (words : ∀ value ∈ values, Word value) :
    Cursor.Yields (readWords count) (wordBytes count values) (padded count values) := by
  have all : ∀ value ∈ padded count values, Word value := by
    intro value member
    rcases List.mem_append.1 member with member | member
    · exact words value member
    · rw [List.eq_of_mem_replicate member]
      exact Nat.two_pow_pos 32
  have run := readWords_yields all
  rwa [length_padded few] at run

/-- Reading numbers is reading a tile info. -/
theorem words_yields {α : Type} {step : EStateM StreamError Cursor α} {bytes : Bytes} {value : α}
    (yields : Cursor.Yields step bytes value) : Cursor.Yields (words step) bytes value := by
  intro cursor rest split
  rw [words, yields cursor rest split]

theorem wordBytes_single (value : Nat) : wordBytes 1 [value] = Bytes.ofNatLE 4 value := by
  rw [wordBytes]
  exact List.append_nil _

theorem readWord_yields_single {value : Nat} (word : Word value) :
    Cursor.Yields readWord (wordBytes 1 [value]) value := by
  rw [wordBytes_single]
  exact readWord_yields word

end TileInfo

/-! ## The parts of a tile info -/

/-- The type of the entry is that of its code, and the sizes fit 32 bits. -/
structure ObuEntry.Fits (entry : ObuEntry) : Prop where
  type : entry.type.code ≤ 255 ∧ ObuType.ofCode entry.type.code = entry.type
  unitSize : TileInfo.Word entry.unitSize
  payloadSize : TileInfo.Word entry.payloadSize

/-- Size and place of the span fit 32 bits. -/
structure DataSpan.Fits (span : DataSpan) : Prop where
  size : TileInfo.Word span.size
  offset : TileInfo.Word span.offset

/-- There is room for all OBUs and tile groups, and all numbers fit 32 bits. -/
structure TileInfo.Fits (info : TileInfo) : Prop where
  obuCount : info.obus.length ≤ maxObus
  obus : ∀ entry ∈ info.obus, entry.Fits
  geometry : ∀ value ∈ geometryWords info.geometry, Word value
  unitSize : Word info.unitSize
  groupCount : info.groups.length ≤ maxGroups
  groups : ∀ span ∈ info.groups, span.Fits

namespace TileInfo

theorem entries_eq_ok {obus : List ObuEntry} (fits : ∀ entry ∈ obus, entry.Fits)
    (types unitSizes payloadSizes : List Nat) :
    entries obus.length (obus.map (·.type.code) ++ types) (obus.map (·.unitSize) ++ unitSizes)
      (obus.map (·.payloadSize) ++ payloadSizes) = .ok obus := by
  induction obus with
  | nil => rfl
  | cons entry rest ih =>
    obtain ⟨⟨code, type⟩, -, -⟩ := fits entry List.mem_cons_self
    have later := ih fun entry member => fits entry (.tail _ member)
    have known : ¬255 < entry.type.code := by omega
    simp only [List.length_cons, List.map_cons, List.cons_append, entries, known, if_false]
    rw [Checked.bind_of_ok later, type]
    rfl

/-- One number of each item, with zeros up to `count` of them. -/
theorem column_yields {γ : Type} {items : List γ} {count : Nat} (few : items.length ≤ count)
    (number : γ → Nat) (words : ∀ item ∈ items, Word (number item)) :
    Cursor.Yields (TileInfo.words (readWords count)) (wordBytes count (items.map number))
      (padded count (items.map number)) := by
  refine words_yields (wordBytes_yields (by rwa [List.length_map]) fun value member => ?_)
  obtain ⟨item, present, rfl⟩ := List.mem_map.1 member
  exact words item present

theorem readObus_yields {obus : List ObuEntry} (few : obus.length ≤ maxObus)
    (fits : ∀ entry ∈ obus, entry.Fits) :
    Cursor.Yields readObus
      (wordBytes maxObus (obus.map (·.type.code)) ++ (wordBytes maxObus (obus.map (·.unitSize)) ++
        (wordBytes maxObus (obus.map (·.payloadSize)) ++ wordBytes 1 [obus.length]))) obus := by
  have code : ∀ entry ∈ obus, Word entry.type.code := fun entry member =>
    Nat.lt_of_le_of_lt (fits entry member).type.1 (by decide)
  have count : Word obus.length := Nat.lt_of_le_of_lt few (by decide)
  have types := column_yields few (·.type.code) code
  have unitSizes := column_yields few ObuEntry.unitSize fun entry member =>
    (fits entry member).unitSize
  have payloadSizes := column_yields few ObuEntry.payloadSize fun entry member =>
    (fits entry member).payloadSize
  have last : Cursor.Yields (described (checkedEntries obus.length
      (padded maxObus (obus.map (·.type.code))) (padded maxObus (obus.map (·.unitSize)))
      (padded maxObus (obus.map (·.payloadSize))))) [] obus := by
    rw [checkedEntries, if_neg (by omega), padded, padded, padded, entries_eq_ok fits]
    exact .pure _
  refine types.bind (unitSizes.bind (payloadSizes.bind ?_))
  rw [← List.append_nil (wordBytes 1 [obus.length])]
  exact (words_yields (readWord_yields_single count)).bind last

theorem readGeometry_yields {geometry : TileGeometry}
    (fits : ∀ value ∈ geometryWords geometry, Word value) :
    Cursor.Yields readGeometry (wordBytes 8 (geometryWords geometry)) geometry := by
  simp only [geometryWords, List.forall_mem_cons] at fits
  obtain ⟨width, height, columns, rows, x, y, tileWidth, tileHeight, -⟩ := fits
  refine (readWord_yields width).bind ((readWord_yields height).bind
    ((readWord_yields columns).bind ((readWord_yields rows).bind ((readWord_yields x).bind
      ((readWord_yields y).bind ((readWord_yields tileWidth).bind
        ((readWord_yields tileHeight).bind ?_)))))))
  exact .pure geometry

theorem zipWith_padded (groups : List DataSpan) (count : Nat) :
    (List.zipWith DataSpan.mk (padded count (groups.map (·.size)))
      (padded count (groups.map (·.offset)))).take groups.length = groups := by
  have pairs : List.zipWith DataSpan.mk (groups.map (·.size)) (groups.map (·.offset)) = groups := by
    induction groups with
    | nil => rfl
    | cons span rest ih => rw [List.map_cons, List.map_cons, List.zipWith_cons_cons, ih]
  have same : (groups.map (·.size)).length = (groups.map (·.offset)).length := by
    rw [List.length_map, List.length_map]
  rw [padded, padded, List.zipWith_append same, pairs, List.take_left]

theorem readGroups_yields {groups : List DataSpan} (few : groups.length ≤ maxGroups)
    (fits : ∀ span ∈ groups, span.Fits) :
    Cursor.Yields readGroups
      (wordBytes 1 [groups.length] ++ (wordBytes maxGroups (groups.map (·.size)) ++
        wordBytes maxGroups (groups.map (·.offset)))) groups := by
  have count : Word groups.length := Nat.lt_of_le_of_lt few (by decide)
  have sizes := column_yields few DataSpan.size fun span member => (fits span member).size
  have offsets := column_yields few DataSpan.offset fun span member => (fits span member).offset
  have last : Cursor.Yields (readSpans groups.length)
      (wordBytes maxGroups (groups.map (·.size)) ++
        (wordBytes maxGroups (groups.map (·.offset)) ++ [])) groups := by
    refine sizes.bind (offsets.bind ?_)
    rw [zipWith_padded]
    exact .pure _
  rw [List.append_nil] at last
  refine (words_yields (readWord_yields_single count)).bind ?_
  rw [if_neg (by omega)]
  exact last

/-- The bytes of a tile info. -/
def coded (info : TileInfo) : Bytes :=
  (wordBytes maxObus (info.obus.map (·.type.code)) ++
    (wordBytes maxObus (info.obus.map (·.unitSize)) ++
      (wordBytes maxObus (info.obus.map (·.payloadSize)) ++ wordBytes 1 [info.obus.length]))) ++
    (wordBytes 8 (geometryWords info.geometry) ++ (wordBytes 1 [info.unitSize] ++
      (wordBytes 1 [info.groups.length] ++ (wordBytes maxGroups (info.groups.map (·.size)) ++
        wordBytes maxGroups (info.groups.map (·.offset))))))

theorem encode_eq_ok {info : TileInfo} (fits : info.Fits) : info.encode = .ok info.coded := by
  have obus : ¬maxObus < info.obus.length := Nat.not_lt.2 fits.obuCount
  have groups : ¬maxGroups < info.groups.length := Nat.not_lt.2 fits.groupCount
  simp only [encode, coded, obus, groups, if_false, List.append_assoc]
  rfl

theorem read_yields {info : TileInfo} (fits : info.Fits) :
    Cursor.Yields read info.coded info := by
  refine (readObus_yields fits.obuCount fits.obus).bind
    ((words_yields (readGeometry_yields fits.geometry)).bind
      ((words_yields (readWord_yields_single fits.unitSize)).bind ?_))
  rw [← List.append_nil (wordBytes 1 [info.groups.length] ++ _)]
  refine (readGroups_yields fits.groupCount fits.groups).bind ?_
  exact .pure info

theorem length_wordBytes {count : Nat} {values : List Nat} (few : values.length ≤ count) :
    (wordBytes count values).length = 4 * count := by
  show (wordRow (padded count values)).length = 4 * count
  rw [length_wordRow, length_padded few]

theorem length_coded {info : TileInfo} (fits : info.Fits) : info.coded.length = byteSize := by
  have obus := fits.obuCount
  have groups := fits.groupCount
  have geometry : (geometryWords info.geometry).length ≤ 8 := Nat.le_refl 8
  simp only [coded, List.length_append]
  rw [length_wordBytes (by rwa [List.length_map]), length_wordBytes (by rwa [List.length_map]),
    length_wordBytes (by rwa [List.length_map]), length_wordBytes (Nat.le_refl 1),
    length_wordBytes geometry, length_wordBytes (Nat.le_refl 1), length_wordBytes (Nat.le_refl 1),
    length_wordBytes (by rwa [List.length_map]), length_wordBytes (by rwa [List.length_map])]
  rfl

/-! ## Packets -/

/-- A tile packet is taken apart into what it was put together from. -/
theorem splitPacket_prepend {info : TileInfo} {unit : Bytes} (fits : info.Fits)
    (size : info.unitSize = unit.length)
    (inside : ∀ span ∈ info.groups, span.stop ≤ unit.length) :
    info.prepend unit = .ok (info.coded ++ unit) ∧
      splitPacket (info.coded ++ unit) = .ok (info, unit) := by
  constructor
  · have same : ¬info.unitSize ≠ unit.length := not_not_intro size
    rw [prepend]
    simp only [same, if_false]
    rw [encode_eq_ok fits]
    rfl
  · have length := length_coded fits
    have long : ¬(info.coded ++ unit).length < byteSize := by
      rw [List.length_append, length]
      omega
    have front : (info.coded ++ unit).take byteSize = info.coded := List.take_left' length
    have back : (info.coded ++ unit).drop byteSize = unit := List.drop_left' length
    have same : ¬info.unitSize ≠ unit.length := not_not_intro size
    have none : (info.groups.find? fun span => unit.length < span.stop) = none := by
      rw [List.find?_eq_none]
      intro span member
      simpa using inside span member
    have found := read_yields fits (.ofBytes info.coded) [] (List.append_nil _).symm
    rw [splitPacket, if_neg long, front, found]
    simp only [back, same, if_false, none]
    rfl

/-- What a packet is taken apart into. -/
theorem splitPacket_sound {data unit : Bytes} {info : TileInfo}
    (split : splitPacket data = .ok (info, unit)) :
    byteSize ≤ data.length ∧ (∃ behind, read (.ofBytes (data.take byteSize)) = .ok info behind) ∧
      unit = data.drop byteSize ∧ info.unitSize = unit.length ∧
      ∀ span ∈ info.groups, span.stop ≤ unit.length := by
  rw [splitPacket] at split
  by_cases short : data.length < byteSize
  · rw [if_pos short] at split
    cases split
  rw [if_neg short] at split
  cases run : read (.ofBytes (data.take byteSize)) with
  | error cause behind =>
    rw [run] at split
    cases split
  | ok found behind =>
    simp only [run] at split
    by_cases size : found.unitSize ≠ (data.drop byteSize).length
    · rw [if_pos size] at split
      cases split
    rw [if_neg size] at split
    cases outside : found.groups.find? fun span => (data.drop byteSize).length < span.stop with
    | some span =>
      rw [outside] at split
      cases split
    | none =>
      rw [outside] at split
      cases split
      refine ⟨Nat.not_lt.1 short, ⟨behind, rfl⟩, rfl, Decidable.not_not.1 size, ?_⟩
      intro span member
      have inside := List.find?_eq_none.1 outside span member
      rwa [decide_eq_true_eq, Nat.not_lt] at inside

end TileInfo

end Av1Tiling
