import Av1Tiling.Proofs.Packet.TileInfo

/-!
# Tile infos as they stand in packets

What a packet is taken apart into is what it was put together from, and the other way round: the
tile info and the unit that were found make up the same packet again, but for entries of its arrays
that are not used (`splitPacket_exact`). These may hold anything and are written as zeros.
-/

namespace Av1Tiling

namespace Bytes

/-- The bytes with zeros in the given places. -/
def clear (bytes : Bytes) (cleared : Nat → Prop) [DecidablePred cleared] : Bytes :=
  bytes.mapIdx fun i byte => if cleared i then 0 else byte

variable {cleared : Nat → Prop} [DecidablePred cleared]

theorem clear_append (front back : Bytes) :
    clear (front ++ back) cleared =
      front.clear cleared ++ back.clear fun i => cleared (i + front.length) :=
  List.mapIdx_append

theorem clear_of_forall_not {bytes : Bytes} (kept : ∀ i < bytes.length, ¬ cleared i) :
    bytes.clear cleared = bytes := by
  apply List.ext_getElem
  · simp [clear]
  · intro i _ inside
    simp [clear, kept i inside]

theorem clear_of_forall {bytes : Bytes} (none : ∀ i < bytes.length, cleared i) :
    bytes.clear cleared = List.replicate bytes.length 0 := by
  apply List.ext_getElem
  · simp [clear]
  · intro i inside _
    rw [clear, List.length_mapIdx] at inside
    simp [clear, none i inside]

end Bytes

/-! ## What reading uses up -/

namespace Cursor

variable {ε α β : Type}

/-- A run of `step` goes on behind bytes that are a code of its value. -/
def Uses (step : EStateM ε Cursor α) (code : α → Bytes → Prop) : Prop :=
  ∀ (cursor behind : Cursor) (value : α), step cursor = .ok value behind →
    ∃ bytes, cursor.rest = bytes ++ behind.rest ∧ code value bytes

namespace Uses

variable {step : EStateM ε Cursor α} {code : α → Bytes → Prop} {codes : β → Bytes → Prop}

protected theorem pure {value : α} (known : code value []) :
    Uses (pure value : EStateM ε Cursor α) code := by
  rintro cursor _ _ ⟨⟩
  exact ⟨[], rfl, known⟩

protected theorem bind {next : α → EStateM ε Cursor β} (first : Uses step code)
    (second : ∀ value bytes, code value bytes →
      Uses (next value) fun result more => codes result (bytes ++ more)) :
    Uses (step >>= next) codes := by
  intro cursor behind result run
  obtain ⟨value, between, start, later⟩ := Step.bind_eq_ok.1 run
  obtain ⟨bytes, here, known⟩ := first _ _ _ start
  obtain ⟨more, there, both⟩ := second value bytes known _ _ _ later
  refine ⟨bytes ++ more, ?_, both⟩
  rw [here, there, List.append_assoc]

end Uses

end Cursor

namespace TileInfo

/-! ## Numbers -/

theorem readWord_uses : Cursor.Uses readWord fun value bytes =>
    bytes = Bytes.ofNatLE 4 value ∧ Word value := by
  intro cursor behind value run
  rw [readWord] at run
  split at run
  next bytes after success =>
    cases run
    obtain ⟨length, -, here⟩ := Cursor.extract_eq_ok success
    refine ⟨bytes, here, ?_, ?_⟩
    · have own := Bytes.ofNatLE_toNatLE bytes
      rw [length] at own
      exact own.symm
    · have below := Bytes.toNatLE_lt bytes
      rw [length] at below
      exact below
  next => cases run

theorem readWords_uses (count : Nat) : Cursor.Uses (readWords count) fun values bytes =>
    bytes = wordRow values ∧ values.length = count ∧ ∀ value ∈ values, Word value := by
  induction count with
  | zero => exact .pure ⟨rfl, rfl, by simp⟩
  | succ count ih =>
    refine readWord_uses.bind fun first bytes known => ih.bind fun rest more others => .pure ?_
    obtain ⟨rfl, word⟩ := known
    obtain ⟨rfl, length, words⟩ := others
    exact ⟨by simp [wordRow], by simp [length], by simpa using ⟨word, words⟩⟩

theorem readGeometry_uses : Cursor.Uses readGeometry fun geometry bytes =>
    bytes = wordRow (geometryWords geometry) ∧ ∀ value ∈ geometryWords geometry, Word value := by
  refine readWord_uses.bind fun width _ w₁ => readWord_uses.bind fun height _ w₂ =>
    readWord_uses.bind fun columns _ w₃ => readWord_uses.bind fun rows _ w₄ =>
    readWord_uses.bind fun x _ w₅ => readWord_uses.bind fun y _ w₆ =>
    readWord_uses.bind fun tileWidth _ w₇ => readWord_uses.bind fun tileHeight _ w₈ => .pure ?_
  simp only [geometryWords, List.forall_mem_cons]
  refine ⟨?_, w₁.2, w₂.2, w₃.2, w₄.2, w₅.2, w₆.2, w₇.2, w₈.2, by rintro _ ⟨⟩⟩
  rw [w₁.1, w₂.1, w₃.1, w₄.1, w₅.1, w₆.1, w₇.1, w₈.1]
  rfl

theorem words_uses {α : Type} {step : EStateM StreamError Cursor α} {code : α → Bytes → Prop}
    (uses : Cursor.Uses step code) : Cursor.Uses (words step) code := by
  intro cursor behind value run
  rw [words] at run
  split at run
  next found after success =>
    cases run
    exact uses _ _ _ success
  next => cases run

/-! ## The parts of a tile info -/

/-- There are `count` numbers, and those that are used come first. -/
structure Column (count : Nat) (used values : List Nat) : Prop where
  used : used <+: values
  length : values.length = count
  words : ∀ value ∈ values, Word value

theorem Column.few {count : Nat} {used values : List Nat} (column : Column count used values) :
    used.length ≤ count := by
  rw [← column.length]
  exact column.used.length_le

theorem Column.fits {count : Nat} {used values : List Nat} (column : Column count used values) :
    ∀ value ∈ used, Word value :=
  fun value member => column.words value (column.used.subset member)

theorem entries_sound {count : Nat} {types unitSizes payloadSizes : List Nat}
    {obus : List ObuEntry} (success : entries count types unitSizes payloadSizes = .ok obus)
    (t : count ≤ types.length) (u : count ≤ unitSizes.length) (p : count ≤ payloadSizes.length) :
    obus.length = count ∧ obus.map (·.type.code) <+: types ∧
      obus.map (·.unitSize) <+: unitSizes ∧ obus.map (·.payloadSize) <+: payloadSizes ∧
      ∀ entry ∈ obus, entry.type.code ≤ 255 ∧ ObuType.ofCode entry.type.code = entry.type := by
  induction count generalizing types unitSizes payloadSizes obus with
  | zero =>
    cases success
    simp
  | succ count ih =>
    obtain _ | ⟨code, types⟩ := types
    · simp at t
    obtain _ | ⟨unitSize, unitSizes⟩ := unitSizes
    · simp at u
    obtain _ | ⟨payloadSize, payloadSizes⟩ := payloadSizes
    · simp at p
    rw [entries] at success
    by_cases large : 255 < code
    · rw [if_pos large] at success
      cases success
    rw [if_neg large] at success
    obtain ⟨rest, later, done⟩ := Checked.bind_eq_ok.1 success
    cases done
    obtain ⟨length, codes, units, payloads, known⟩ :=
      ih later (Nat.le_of_succ_le_succ t) (Nat.le_of_succ_le_succ u) (Nat.le_of_succ_le_succ p)
    simp only [List.length_cons, length, List.map_cons, ObuType.code_ofCode,
      List.cons_prefix_cons, true_and, List.forall_mem_cons]
    exact ⟨codes, units, payloads, ⟨Nat.not_lt.1 large, trivial⟩, known⟩

/-- The numbers of the OBUs that a unit has are those in front of the arrays. -/
theorem readObus_uses : Cursor.Uses readObus fun obus bytes =>
    ∃ types unitSizes payloadSizes, Column maxObus (obus.map (·.type.code)) types ∧
      Column maxObus (obus.map (·.unitSize)) unitSizes ∧
      Column maxObus (obus.map (·.payloadSize)) payloadSizes ∧ (∀ entry ∈ obus, entry.Fits) ∧
      bytes = wordRow types ++ (wordRow unitSizes ++ (wordRow payloadSizes ++
        wordRow [obus.length])) := by
  have column := words_uses (readWords_uses maxObus)
  refine column.bind fun types _ t => column.bind fun unitSizes _ u =>
    column.bind fun payloadSizes _ p => (words_uses readWord_uses).bind fun count _ c => ?_
  obtain ⟨rfl, typeCount, typeWords⟩ := t
  obtain ⟨rfl, unitCount, unitWords⟩ := u
  obtain ⟨rfl, payloadCount, payloadWords⟩ := p
  obtain ⟨rfl, -⟩ := c
  rw [checkedEntries]
  by_cases many : maxObus < count
  · rw [if_pos many]
    rintro _ _ _ ⟨⟩
  rw [if_neg many]
  have few : count ≤ maxObus := Nat.not_lt.1 many
  cases found : entries count types unitSizes payloadSizes with
  | error cause => rintro _ _ _ ⟨⟩
  | ok obus =>
    obtain ⟨length, codes, units, payloads, known⟩ := entries_sound found (by omega) (by omega)
      (by omega)
    refine .pure ⟨types, unitSizes, payloadSizes, ⟨codes, typeCount, typeWords⟩,
      ⟨units, unitCount, unitWords⟩, ⟨payloads, payloadCount, payloadWords⟩, ?_, ?_⟩
    · intro entry member
      exact ⟨known entry member, unitWords _ (units.subset (List.mem_map_of_mem member)),
        payloadWords _ (payloads.subset (List.mem_map_of_mem member))⟩
    · simp [wordRow, length]

theorem take_zipWith (sizes offsets : List Nat) (count : Nat)
    (same : sizes.length = offsets.length) :
    ((List.zipWith DataSpan.mk sizes offsets).take count).map (·.size) = sizes.take count ∧
      ((List.zipWith DataSpan.mk sizes offsets).take count).map (·.offset) =
        offsets.take count := by
  induction sizes generalizing offsets count with
  | nil =>
    have none : offsets = [] := List.eq_nil_of_length_eq_zero same.symm
    simp [none]
  | cons size sizes ih =>
    obtain _ | ⟨offset, offsets⟩ := offsets
    · cases same
    cases count with
    | zero => simp
    | succ count =>
      obtain ⟨front, back⟩ := ih offsets count (Nat.succ.inj same)
      simp [front, back]

theorem readGroups_uses : Cursor.Uses readGroups fun groups bytes =>
    ∃ sizes offsets, Column maxGroups (groups.map (·.size)) sizes ∧
      Column maxGroups (groups.map (·.offset)) offsets ∧
      bytes = wordRow [groups.length] ++ (wordRow sizes ++ wordRow offsets) := by
  have column := words_uses (readWords_uses maxGroups)
  refine (words_uses readWord_uses).bind fun count _ c => ?_
  obtain ⟨rfl, -⟩ := c
  by_cases many : maxGroups < count
  · rw [if_pos many]
    rintro _ _ _ ⟨⟩
  rw [if_neg many]
  have few : count ≤ maxGroups := Nat.not_lt.1 many
  refine column.bind fun sizes _ s => column.bind fun offsets _ o => .pure ?_
  obtain ⟨rfl, sizeCount, sizeWords⟩ := s
  obtain ⟨rfl, offsetCount, offsetWords⟩ := o
  obtain ⟨front, back⟩ := take_zipWith sizes offsets count (sizeCount.trans offsetCount.symm)
  refine ⟨sizes, offsets, ⟨?_, sizeCount, sizeWords⟩, ⟨?_, offsetCount, offsetWords⟩, ?_⟩
  · rw [front]
    exact List.take_prefix _ _
  · rw [back]
    exact List.take_prefix _ _
  · have length : ((List.zipWith DataSpan.mk sizes offsets).take count).length = count := by
      rw [List.length_take, List.length_zipWith, sizeCount, offsetCount]
      omega
    simp [wordRow, length]

/-- The numbers in the arrays of a tile info. -/
structure Arrays where
  types : List Nat
  unitSizes : List Nat
  payloadSizes : List Nat
  sizes : List Nat
  offsets : List Nat

namespace Arrays

/-- The arrays open with the numbers of the tile info. -/
structure Hold (arrays : Arrays) (info : TileInfo) : Prop where
  types : Column maxObus (info.obus.map (·.type.code)) arrays.types
  unitSizes : Column maxObus (info.obus.map (·.unitSize)) arrays.unitSizes
  payloadSizes : Column maxObus (info.obus.map (·.payloadSize)) arrays.payloadSizes
  sizes : Column maxGroups (info.groups.map (·.size)) arrays.sizes
  offsets : Column maxGroups (info.groups.map (·.offset)) arrays.offsets

/-- The bytes of a tile info with these arrays. -/
def bytes (arrays : Arrays) (info : TileInfo) : Bytes :=
  (wordRow arrays.types ++ (wordRow arrays.unitSizes ++ (wordRow arrays.payloadSizes ++
    wordRow [info.obus.length]))) ++
    (wordRow (geometryWords info.geometry) ++ (wordRow [info.unitSize] ++
      (wordRow [info.groups.length] ++ (wordRow arrays.sizes ++ wordRow arrays.offsets))))

end Arrays

theorem read_uses : Cursor.Uses read fun info bytes =>
    info.Fits ∧ ∃ arrays : Arrays, arrays.Hold info ∧ bytes = arrays.bytes info := by
  refine readObus_uses.bind fun obus _ o => (words_uses readGeometry_uses).bind fun geometry _ g =>
    (words_uses readWord_uses).bind fun unitSize _ u => readGroups_uses.bind fun groups _ k =>
      .pure ?_
  obtain ⟨types, unitSizes, payloadSizes, t, us, ps, fits, rfl⟩ := o
  obtain ⟨rfl, words⟩ := g
  obtain ⟨rfl, word⟩ := u
  obtain ⟨sizes, offsets, s, os, rfl⟩ := k
  have obuCount := t.few
  have groupCount := s.few
  rw [List.length_map] at obuCount groupCount
  refine ⟨⟨obuCount, fits, words, word, groupCount, fun span member => ?_⟩,
    ⟨types, unitSizes, payloadSizes, sizes, offsets⟩, ⟨t, us, ps, s, os⟩, ?_⟩
  · exact ⟨s.fits _ (List.mem_map_of_mem member), os.fits _ (List.mem_map_of_mem member)⟩
  · simp [Arrays.bytes, wordRow]

/-! ## Entries that are not used -/

/-- An array of a tile info. -/
structure WordArray where
  /-- Where its first byte is. -/
  start : Nat
  /-- The number of its entries. -/
  entries : Nat
  /-- How many of the entries are used. -/
  used : Nat

/-- The arrays with a number of each OBU and those with a number of each tile group. -/
def arrays (info : TileInfo) : List WordArray :=
  [⟨0, maxObus, info.obus.length⟩, ⟨64, maxObus, info.obus.length⟩,
    ⟨128, maxObus, info.obus.length⟩, ⟨236, maxGroups, info.groups.length⟩,
    ⟨268, maxGroups, info.groups.length⟩]

/-- The byte at `position` of a packet is one of an entry that is not used. -/
def Unused (info : TileInfo) (position : Nat) : Prop :=
  ∃ array ∈ info.arrays,
    array.start + 4 * array.used ≤ position ∧ position < array.start + 4 * array.entries

instance instDecidablePredUnused (info : TileInfo) : DecidablePred info.Unused :=
  fun position => inferInstanceAs (Decidable (∃ array ∈ info.arrays,
    array.start + 4 * array.used ≤ position ∧ position < array.start + 4 * array.entries))

/-- What stands behind the used entries is cleared. -/
theorem Column.clear {count : Nat} {used values : List Nat} (column : Column count used values)
    {cleared : Nat → Prop} [DecidablePred cleared]
    (places : ∀ i < 4 * count, cleared i ↔ 4 * used.length ≤ i) :
    (wordRow values).clear cleared = wordBytes count used := by
  have few := column.few
  have length := column.length
  obtain ⟨others, rfl⟩ := column.used
  rw [List.length_append] at length
  have front : (wordRow used).clear cleared = wordRow used := by
    apply Bytes.clear_of_forall_not
    intro i inside
    rw [length_wordRow] at inside
    rw [places i (by omega)]
    omega
  have back : ((wordRow others).clear fun i => cleared (i + (wordRow used).length)) =
      wordRow (List.replicate (count - used.length) 0) := by
    rw [Bytes.clear_of_forall, wordRow_zeros, length_wordRow]
    · congr 1
      omega
    · intro i inside
      rw [length_wordRow] at inside ⊢
      rw [places _ (by omega)]
      omega
  show _ = wordRow (padded count used)
  rw [wordRow_append, Bytes.clear_append, front, back, padded, wordRow_append]

theorem unused_iff {info : TileInfo} {position : Nat} :
    info.Unused position ↔
      (4 * info.obus.length ≤ position ∧ position < 64 ∨
        64 + 4 * info.obus.length ≤ position ∧ position < 128 ∨
        128 + 4 * info.obus.length ≤ position ∧ position < 192) ∨
      (236 + 4 * info.groups.length ≤ position ∧ position < 268 ∨
        268 + 4 * info.groups.length ≤ position ∧ position < 300) := by
  simp only [Unused, arrays, maxObus, maxGroups, List.mem_cons, List.not_mem_nil, or_false,
    exists_eq_or_imp, exists_eq_left]
  omega

theorem Column.full {values : List Nat} (words : ∀ value ∈ values, Word value) :
    Column values.length values values :=
  ⟨List.prefix_rfl, rfl, words⟩

theorem Column.length_row {count : Nat} {used values : List Nat}
    (column : Column count used values) : (wordRow values).length = 4 * count := by
  rw [length_wordRow, column.length]

theorem Column.clear_append {count size : Nat} {used values : List Nat}
    (column : Column count used values) (length : used.length = size) {back kept : Bytes}
    {cleared : Nat → Prop} [DecidablePred cleared]
    (places : ∀ i < 4 * count, cleared i ↔ 4 * size ≤ i)
    (behind : (back.clear fun i => cleared (i + 4 * count)) = kept) :
    Bytes.clear (wordRow values ++ back) cleared = wordBytes count used ++ kept := by
  subst length
  have row := column.length_row
  rw [Bytes.clear_append, column.clear places]
  simp only [row, behind]

/-- The bytes of a tile info are those with any arrays that hold its numbers, cleared. -/
theorem Arrays.Hold.clear {arrays : Arrays} {info : TileInfo} (hold : arrays.Hold info)
    (fits : info.Fits) (unit : Bytes) :
    (arrays.bytes info ++ unit).clear info.Unused = info.coded ++ unit := by
  have obus := fits.obuCount
  have groups := fits.groupCount
  have most : maxObus = 16 ∧ maxGroups = 8 := ⟨rfl, rfl⟩
  have single : ∀ value, Word value → Column 1 [value] [value] := fun value word =>
    Column.full (List.forall_mem_singleton.2 word)
  have obuCount := single _ (Nat.lt_of_le_of_lt obus (by decide))
  have eight : (geometryWords info.geometry).length = 8 := rfl
  have geometry := Column.full fits.geometry
  rw [eight] at geometry
  have groupCount := single _ (Nat.lt_of_le_of_lt groups (by decide))
  simp only [Arrays.bytes, coded, List.append_assoc]
  -- the arrays and what stands between them, in the order of the bytes
  apply hold.types.clear_append (List.length_map _)
  · simp only [unused_iff]
    omega
  apply hold.unitSizes.clear_append (List.length_map _)
  · simp only [unused_iff]
    omega
  apply hold.payloadSizes.clear_append (List.length_map _)
  · simp only [unused_iff]
    omega
  apply obuCount.clear_append List.length_singleton
  · simp only [unused_iff]
    omega
  apply geometry.clear_append eight
  · simp only [unused_iff]
    omega
  apply (single _ fits.unitSize).clear_append List.length_singleton
  · simp only [unused_iff]
    omega
  apply groupCount.clear_append List.length_singleton
  · simp only [unused_iff]
    omega
  apply hold.sizes.clear_append (List.length_map _)
  · simp only [unused_iff]
    omega
  apply hold.offsets.clear_append (List.length_map _)
  · simp only [unused_iff]
    omega
  apply Bytes.clear_of_forall_not
  simp only [unused_iff]
  omega

theorem Arrays.Hold.length_bytes {arrays : Arrays} {info : TileInfo} (hold : arrays.Hold info) :
    (arrays.bytes info).length = byteSize := by
  simp only [Arrays.bytes, List.length_append, hold.types.length_row, hold.unitSizes.length_row,
    hold.payloadSizes.length_row, hold.sizes.length_row, hold.offsets.length_row, length_wordRow]
  rfl

/-- The tile info in front of a packet fits, and it is written as it stands there but for entries
    that are not used. -/
theorem coded_of_read {data : Bytes} {info : TileInfo} {behind : Cursor}
    (long : byteSize ≤ data.length)
    (run : read (.ofBytes (data.take byteSize)) = .ok info behind) :
    info.Fits ∧ info.coded ++ data.drop byteSize = data.clear info.Unused := by
  obtain ⟨bytes, split, fits, arrays, hold, rfl⟩ := read_uses _ _ _ run
  have front : data.take byteSize = arrays.bytes info ++ behind.rest := split
  -- the tile info uses all of the bytes that were cut off for it
  have length := congrArg List.length front
  rw [List.length_append, hold.length_bytes, List.length_take_of_le long] at length
  have none : behind.rest = [] := List.eq_nil_of_length_eq_zero (by omega)
  rw [none, List.append_nil] at front
  refine ⟨fits, ?_⟩
  rw [← hold.clear fits, ← front, List.take_append_drop]

/-! ## Packets -/

theorem slice_places {bytes : Bytes} {start size : Nat} (inside : start + size ≤ bytes.length) :
    (bytes.slice start size).map some = (List.range size).map fun i => bytes[start + i]? := by
  apply List.ext_getElem
  · simp [Bytes.length_slice inside]
  · intro i here _
    rw [List.length_map, Bytes.length_slice inside] at here
    have place : start + i < bytes.length := by omega
    simp [Bytes.slice, place]

/-- The bytes of a tile are those of the unit in the places that the spans say. -/
theorem tileData_places {info : TileInfo} {unit : Bytes}
    (inside : ∀ span ∈ info.groups, span.stop ≤ unit.length) (start stop : Nat) :
    (info.tileData unit start stop).map some =
      ((info.groups.drop start).take (stop - start)).flatMap fun span =>
        (List.range span.size).map fun i => unit[span.offset + i]? := by
  have chosen : ∀ span ∈ (info.groups.drop start).take (stop - start),
      span.stop ≤ unit.length := fun span member =>
    inside span (List.mem_of_mem_drop (List.mem_of_mem_take member))
  rw [tileData]
  generalize (info.groups.drop start).take (stop - start) = spans at chosen ⊢
  induction spans with
  | nil => rfl
  | cons span rest ih =>
    have here := slice_places (chosen span List.mem_cons_self)
    have behind := ih fun span member => chosen span (.tail _ member)
    rw [List.flatMap_cons, List.flatMap_cons, List.map_append, here, behind]

/-- Tile infos and units that fit each other are taken apart as they were put together. A packet
    that is taken apart is put together again as it was but for array entries that are not used, and
    its tiles are made of bytes of its unit. -/
theorem splitPacket_exact :
    (∀ (info : TileInfo) (unit : Bytes), info.Fits → info.unitSize = unit.length →
      (∀ span ∈ info.groups, span.stop ≤ unit.length) →
      ∃ data, info.prepend unit = .ok data ∧ data.length = 300 + unit.length ∧
        splitPacket data = .ok (info, unit)) ∧
    ∀ (data : Bytes) (info : TileInfo) (unit : Bytes), splitPacket data = .ok (info, unit) →
      info.Fits ∧ info.prepend unit = .ok (data.clear info.Unused) ∧
        (∀ span ∈ info.groups, span.stop ≤ unit.length) ∧
        ∀ start stop, (info.tileData unit start stop).map some =
          ((info.groups.drop start).take (stop - start)).flatMap fun span =>
            (List.range span.size).map fun i => unit[span.offset + i]? := by
  constructor
  · intro info unit fits size inside
    obtain ⟨together, apart⟩ := splitPacket_prepend fits size inside
    refine ⟨_, together, ?_, apart⟩
    rw [List.length_append, length_coded fits]
    rfl
  · intro data info unit split
    obtain ⟨long, ⟨behind, run⟩, rfl, size, inside⟩ := splitPacket_sound split
    obtain ⟨fits, same⟩ := coded_of_read long run
    obtain ⟨together, -⟩ := splitPacket_prepend fits size inside
    rw [same] at together
    exact ⟨fits, together, inside, tileData_places inside⟩

/-- A packet with a number behind those of its two OBUs, which is written as zero. -/
theorem splitPacket_exact_unused_entry :
    ∃ (info : TileInfo) (unit data : Bytes),
      (info = ⟨⟨256, 256, 2, 2, 128, 128, 128, 128⟩,
          [⟨.temporalDelimiter, 2, 0⟩, ⟨.tileGroup, 12, 10⟩], 12, [⟨3, 9⟩]⟩ ∧
        unit = [0x12, 0x00, 0x22, 0x0A, 0, 0, 0, 0, 0, 0xAA, 0xBB, 0xCC] ∧
        data = info.coded.set 8 7 ++ unit) ∧
      splitPacket data = .ok (info, unit) ∧
      (∃ other, info.prepend unit = .ok other ∧ other.length = 312 ∧
        splitPacket other = .ok (info, unit)) ∧
      info.prepend unit = .ok (data.clear info.Unused) ∧ data.clear info.Unused ≠ data ∧
      (info.tileData unit 0 1).map some = [some 0xAA, some 0xBB, some 0xCC] := by
  refine ⟨_, _, _, ⟨rfl, rfl, rfl⟩, ?_⟩
  obtain ⟨whole, apart⟩ := splitPacket_exact
  refine (and_iff_left_of_imp fun split => ?_).2 ?_
  · obtain ⟨fits, together, inside, places⟩ := apart _ _ _ split
    refine ⟨whole _ _ fits rfl inside, together, ?_, ?_⟩
    · decide +kernel
    · rw [places]
      rfl
  · decide +kernel

end TileInfo

end Av1Tiling
