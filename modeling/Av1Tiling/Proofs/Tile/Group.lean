import Av1Tiling.Proofs.Checked
import Av1Tiling.Proofs.Code.LittleEndian
import Av1Tiling.Proofs.Obu.Writing
import Av1Tiling.Proofs.Tile.Layout
import Av1Tiling.Tile.Group

/-!
# The bytes of tile groups

A group that was parsed holds consecutive tiles, each of which is a stretch of the payload, and all
of them in a row are the payload behind the header. One group with all tiles of a frame is written
as the same row, so a group that says nothing about its range is written as it was.
-/

namespace Av1Tiling

/-- The bytes of a tile in the payload of its group. -/
def TileSpan.of (span : TileSpan) (payload : Bytes) : Bytes :=
  payload.slice span.offset span.size

namespace TileGroup

/-- The tiles of a group. -/
def tileBytes (group : TileGroup) (payload : Bytes) : List Bytes :=
  group.tiles.map (·.of payload)

/-- Tiles in a row, all but the last behind their sizes. -/
def codedTiles (sizeBytes : Nat) : List Bytes → Bytes
  | [] => []
  | [last] => last
  | tile :: rest => Bytes.ofNatLE sizeBytes (tile.length - 1) ++ (tile ++ codedTiles sizeBytes rest)

/-- The payload of one group with all tiles of a frame, which does not say which tiles it holds. -/
def coded (layout : TileLayout) (tiles : List Bytes) : Bytes :=
  (if 1 < layout.tileCount then [0] else []) ++ codedTiles layout.tileSizeBytes tiles

/-- All tiles but the last have sizes that can be coded. -/
def Sized (sizeBytes : Nat) (tiles : List Bytes) : Prop :=
  ∀ tile ∈ tiles.dropLast, 1 ≤ tile.length ∧ tile.length ≤ 256 ^ sizeBytes

theorem codedTiles_cons (sizeBytes : Nat) (tile : Bytes) {rest : List Bytes} (some : rest ≠ []) :
    codedTiles sizeBytes (tile :: rest) =
      Bytes.ofNatLE sizeBytes (tile.length - 1) ++ (tile ++ codedTiles sizeBytes rest) := by
  cases rest with
  | nil => exact absurd rfl some
  | cons next rest => rfl

theorem sized_cons {sizeBytes : Nat} {tile : Bytes} {rest : List Bytes} (some : rest ≠ []) :
    Sized sizeBytes (tile :: rest) ↔
      (1 ≤ tile.length ∧ tile.length ≤ 256 ^ sizeBytes) ∧ Sized sizeBytes rest := by
  rw [Sized, List.dropLast_cons_of_ne_nil some, List.forall_mem_cons]
  rfl

/-! ## Parsing -/

theorem sizeOf_sound {sizeBytes tile size : Nat} {rest : Bytes}
    (found : sizeOf sizeBytes tile rest = .ok size) :
    rest.take sizeBytes = Bytes.ofNatLE sizeBytes size ∧ sizeBytes ≤ rest.length ∧
      size < 256 ^ sizeBytes := by
  unfold sizeOf at found
  by_cases short : rest.length < sizeBytes
  · rw [if_pos short] at found
    cases found
  · rw [if_neg short] at found
    split at found
    · cases found
    · cases found
      have length : (rest.take sizeBytes).length = sizeBytes := by
        rw [List.length_take]
        omega
      have same := Bytes.ofNatLE_toNatLE (rest.take sizeBytes)
      have bound := Bytes.toNatLE_lt (rest.take sizeBytes)
      rw [length] at same bound
      exact ⟨same.symm, by omega, bound⟩

/-- A tile behind its size is a stretch of the payload. -/
theorem locateOne_sound {sizeBytes tile offset : Nat} {payload : Bytes} {span : TileSpan}
    (inside : offset ≤ payload.length)
    (found : locateOne sizeBytes tile offset (payload.drop offset) = .ok span) :
    span.tile = tile ∧ span.offset = offset + sizeBytes ∧
      span.offset + span.size ≤ payload.length ∧
      (1 ≤ span.size ∧ span.size ≤ 256 ^ sizeBytes) ∧
      payload.drop offset = Bytes.ofNatLE sizeBytes (span.size - 1) ++
        (span.of payload ++ payload.drop (span.offset + span.size)) := by
  obtain ⟨size, sized, found⟩ := Checked.bind_eq_ok.1 found
  obtain ⟨taken, long, bound⟩ := sizeOf_sound sized
  obtain ⟨total, longer, found⟩ := Checked.bind_eq_ok.1 found
  obtain ⟨-, rfl⟩ := Checked.long_eq_ok_iff.1 (Checked.lift_eq_ok.1 longer)
  by_cases short : (payload.drop offset).length < sizeBytes + (size + 1)
  · rw [if_pos short] at found
    cases found
  · rw [if_neg short] at found
    cases found
    rw [List.length_drop] at short
    refine ⟨rfl, rfl, by simp only; omega, ⟨Nat.le_add_left .., bound⟩, ?_⟩
    have split : ∀ used size, payload.drop offset = (payload.drop offset).take used ++
        ((payload.drop (offset + used)).take size ++ payload.drop (offset + used + size)) := by
      intro used size
      simp only [← List.drop_drop, List.take_append_drop]
    rw [Nat.add_sub_cancel, ← taken]
    exact split sizeBytes (size + 1)

/-- From `start` on the payload is nothing but the tiles, all but the last behind size fields that
    say one less than their sizes. -/
def Covers (sizeBytes : Nat) (payload : Bytes) : (start : Nat) → List TileSpan → Prop
  | _, [] => False
  | start, [last] => last.offset = start ∧ start + last.size = payload.length
  | start, span :: rest =>
    (span.offset = start + sizeBytes ∧ span.offset ≤ payload.length ∧
      span.size = Bytes.toNatLE (payload.slice start sizeBytes) + 1) ∧
    Covers sizeBytes payload (span.offset + span.size) rest

theorem covers_cons (sizeBytes : Nat) (payload : Bytes) (start : Nat) (span : TileSpan)
    {rest : List TileSpan} (some : rest ≠ []) :
    Covers sizeBytes payload start (span :: rest) ↔
      (span.offset = start + sizeBytes ∧ span.offset ≤ payload.length ∧
        span.size = Bytes.toNatLE (payload.slice start sizeBytes) + 1) ∧
      Covers sizeBytes payload (span.offset + span.size) rest := by
  cases rest with
  | nil => exact absurd rfl some
  | cons next rest => rfl

/-- Tiles in a row are stretches of the payload that follow each other to its end. -/
structure Located (sizeBytes first count offset : Nat) (payload : Bytes) (tiles : List TileSpan) :
    Prop where
  indices : tiles.map TileSpan.tile = List.range' first (count + 1)
  covers : Covers sizeBytes payload offset tiles
  inside : ∀ span ∈ tiles, span.offset + span.size ≤ payload.length
  sized : Sized sizeBytes (tiles.map (·.of payload))
  coded : codedTiles sizeBytes (tiles.map (·.of payload)) = payload.drop offset

theorem locate_sound {sizeBytes count tile offset : Nat} {payload : Bytes} {tiles : List TileSpan}
    (inside : offset ≤ payload.length)
    (found : locate sizeBytes count tile offset (payload.drop offset) = .ok tiles) :
    Located sizeBytes tile count offset payload tiles := by
  induction count generalizing tile offset tiles with
  | zero =>
    cases found
    have whole : (⟨tile, offset, (payload.drop offset).length⟩ : TileSpan).of payload =
        payload.drop offset := List.take_length
    have reaches : offset + (payload.drop offset).length = payload.length := by
      rw [List.length_drop]
      omega
    constructor
    · rfl
    · exact ⟨rfl, reaches⟩
    · intro span member
      rw [List.mem_singleton.1 member]
      exact Nat.le_of_eq reaches
    · rintro _ ⟨⟩
    · exact whole
  | succ count ih =>
    obtain ⟨span, first, found⟩ := Checked.bind_eq_ok.1 found
    obtain ⟨later, second, found⟩ := Checked.bind_eq_ok.1 found
    cases found
    obtain ⟨same, start, fits, sized, split⟩ := locateOne_sound inside first
    have rest : (payload.drop offset).drop (sizeBytes + span.size) =
        payload.drop (span.offset + span.size) := by
      rw [List.drop_drop, start, Nat.add_assoc]
    rw [rest, ← start] at second
    have behind := ih fits second
    have some : later.map (·.of payload) ≠ [] := by
      intro none
      have length := congrArg List.length behind.indices
      rw [List.map_eq_nil_iff.1 none, List.length_range'] at length
      cases length
    have size : (span.of payload).length = span.size := Bytes.length_slice fits
    have others : later ≠ [] := fun none => some (by rw [none, List.map_nil])
    have code : payload.slice offset sizeBytes = Bytes.ofNatLE sizeBytes (span.size - 1) := by
      rw [Bytes.slice, split]
      exact List.take_left' (Bytes.length_ofNatLE ..)
    constructor
    · rw [List.map_cons, behind.indices, same]
      rfl
    · rw [covers_cons _ _ _ _ others, code, Bytes.toNatLE_ofNatLE, Nat.mod_eq_of_lt (by omega)]
      exact ⟨⟨start, by omega, by omega⟩, behind.covers⟩
    · exact List.forall_mem_cons.2 ⟨fits, behind.inside⟩
    · rw [List.map_cons, sized_cons some, size]
      exact ⟨sized, behind.sized⟩
    · rw [List.map_cons, codedTiles_cons _ _ some, behind.coded, size, split]

/-- A group that does not say which tiles it holds, holds all of them. Its header is empty, or one
    byte for frames of several tiles. -/
theorem readHeader_whole {layout : TileLayout} {payload : Bytes} {first last : Nat}
    {behind : BitReader}
    (run : readHeader layout (.ofBytes payload) = .ok (false, first, last) behind) :
    (first = 0 ∧ last = layout.tileCount - 1) ∧
      payload.take behind.bytePos = if 1 < layout.tileCount then [0] else [] := by
  obtain ⟨present, afterFlag, flag, run⟩ := Step.bind_eq_ok.1 run
  obtain ⟨⟨low, high⟩, afterRange, range, run⟩ := Step.bind_eq_ok.1 run
  obtain ⟨_, afterPadding, padding, run⟩ := Step.bind_eq_ok.1 run
  cases run
  cases range
  refine ⟨⟨rfl, rfl⟩, ?_⟩
  have zeros := Read.zeroPadding_sound padding
  unfold readPresent at flag
  split at flag
  next several =>
    obtain ⟨-, advances⟩ := (Field.readFlag_decodes "tile_start_and_end_present_flag").sound flag
    have pos : afterFlag.pos = 1 := advances.pos
    have whole := advances.trans zeros
    rw [BitReader.untilAligned, pos] at whole
    have bits : Bits.ofBytes payload = Bits.ofByte 0 ++ behind.rest := whole.rest
    have last : behind.pos = 8 := whole.pos
    have stop : behind.bytePos = 1 := by rw [BitReader.bytePos, last]
    rw [stop, if_pos several]
    apply Bits.ofBytes_injective
    rw [Bits.ofBytes_take, bits, Bits.ofBytes_singleton, List.take_left' (Bits.length_ofByte 0)]
  next single =>
    cases flag
    have last : behind.pos = 0 := by
      simpa [BitReader.ofBytes, BitReader.untilAligned] using zeros.pos
    have stop : behind.bytePos = 0 := by rw [BitReader.bytePos, last]
    rw [stop, if_neg single, List.take_zero]

/-- A group is its header, and the tiles that are located behind it. -/
theorem parse_eq_ok {payload : Bytes} {layout : TileLayout} {group : TileGroup} :
    parse payload layout = .ok group ↔
      (∃ behind, Read.runOn (readHeader layout) payload =
          .ok (group.rangePresent, group.first, group.last) behind ∧
        group.headerSize = behind.bytePos) ∧
      group.headerSize ≤ payload.length ∧ group.first ≤ group.last ∧
      locate layout.tileSizeBytes (group.last - group.first) group.first group.headerSize
        (payload.drop group.headerSize) = .ok group.tiles := by
  constructor
  · intro success
    unfold parse at success
    split at success
    next => cases success
    next present first last behind run =>
      obtain ⟨_, header, success⟩ := Checked.bind_eq_ok.1 success
      obtain ⟨count, range, success⟩ := Checked.bind_eq_ok.1 success
      obtain ⟨tiles, located, success⟩ := Checked.bind_eq_ok.1 success
      cases success
      obtain ⟨inside, -⟩ := Checked.sub_eq_ok_iff.1 (Checked.lift_eq_ok.1 header)
      obtain ⟨ordered, rfl⟩ := Checked.sub_eq_ok_iff.1 (Checked.lift_eq_ok.1 range)
      exact ⟨⟨behind, run, rfl⟩, inside, ordered, located⟩
  · obtain ⟨present, first, last, headerSize, tiles⟩ := group
    rintro ⟨⟨behind, run, rfl⟩, inside, ordered, located⟩
    have header := Checked.sub_eq_ok_iff.2 ⟨inside, rfl⟩
    have range := Checked.sub_eq_ok_iff.2 ⟨ordered, rfl⟩
    simp only [parse, run]
    rw [Checked.bind_of_ok (Checked.lift_eq_ok.2 header),
      Checked.bind_of_ok (Checked.lift_eq_ok.2 range), Checked.bind_of_ok located]
    rfl

/-- What is known of a group that was parsed. -/
structure Parsed (payload : Bytes) (layout : TileLayout) (group : TileGroup) : Prop where
  header : group.headerSize ≤ payload.length
  range : group.first ≤ group.last
  located : Located layout.tileSizeBytes group.first (group.last - group.first) group.headerSize
    payload group.tiles
  all : group.rangePresent = false → group.first = 0 ∧ group.last = layout.tileCount - 1
  whole : group.rangePresent = false →
    payload.take group.headerSize = if 1 < layout.tileCount then [0] else []

theorem parse_sound {payload : Bytes} {layout : TileLayout} {group : TileGroup}
    (success : parse payload layout = .ok group) : Parsed payload layout group := by
  obtain ⟨⟨behind, run, header⟩, inside, ordered, located⟩ := parse_eq_ok.1 success
  have whole (absent : group.rangePresent = false) := by
    rw [absent] at run
    exact readHeader_whole run
  refine ⟨inside, ordered, locate_sound inside located, fun absent => (whole absent).1, ?_⟩
  intro absent
  rw [header]
  exact (whole absent).2

/-- A group that does not say which tiles it holds is the one group with these tiles. -/
theorem Parsed.coded {payload : Bytes} {layout : TileLayout} {group : TileGroup}
    (parsed : Parsed payload layout group) (whole : group.rangePresent = false) :
    coded layout (group.tileBytes payload) = payload := by
  rw [TileGroup.coded, tileBytes, parsed.located.coded, ← parsed.whole whole,
    List.take_append_drop]

/-- The tiles that a group holds. -/
def indices (group : TileGroup) : List Nat :=
  group.tiles.map TileSpan.tile

/-- A group holds the tiles from its first to its last. -/
structure Ranged (group : TileGroup) : Prop where
  ordered : group.first ≤ group.last
  indices : group.indices = List.range' group.first (group.last - group.first + 1)

theorem parse_ranged {payload : Bytes} {layout : TileLayout} {group : TileGroup}
    (parsed : parse payload layout = .ok group) : group.Ranged :=
  ⟨(parse_sound parsed).range, (parse_sound parsed).located.indices⟩

/-- A group with all of `count` tiles reaches from the first of them to the last. -/
theorem Ranged.whole {group : TileGroup} {count : Nat} (ranged : group.Ranged)
    (all : group.indices = List.range count) : group.first = 0 ∧ group.last + 1 = count := by
  rw [ranged.indices, List.range_eq_range', List.range'_inj] at all
  have ordered := ranged.ordered
  omega

theorem endsFrame_iff {layout : TileLayout} {group : TileGroup} :
    group.endsFrame layout = true ↔ group.last + 1 = layout.tileCount :=
  beq_iff_eq

/-! ## Writing -/

theorem writeTiles_appends {sizeBytes : Nat} (narrow : sizeBytes ≤ 8) (index : Nat)
    {tiles : List Bytes} (sized : Sized sizeBytes tiles) :
    Write.Appends (writeTiles sizeBytes index tiles) (Bits.ofBytes (codedTiles sizeBytes tiles))
      () := by
  induction tiles generalizing index with
  | nil => exact .pure _
  | cons tile rest ih =>
    cases rest with
    | nil => exact Write.bytes_appends tile
    | cons next rest =>
      have some : next :: rest ≠ [] := List.cons_ne_nil _ _
      obtain ⟨⟨least, most⟩, behind⟩ := (sized_cons some).1 sized
      have full : tile.isEmpty = false := by
        cases tile with
        | nil => cases least
        | cons byte tile => rfl
      have fits : tile.length - 1 < 256 ^ sizeBytes := by omega
      have size := LittleEndian.write_appends narrow fits
      rw [codedTiles_cons _ _ some, Bits.ofBytes_append, Bits.ofBytes_append, writeTiles, full]
      · exact size.bind ((Write.bytes_appends tile).bind (ih (index + 1) behind))
      · exact some

/-- All tiles of a frame are written as one group, from the start of a byte on. -/
theorem writeAll_puts {layout : TileLayout} (narrow : layout.tileSizeBytes ≤ 8)
    {tiles : List Bytes} (all : tiles.length = layout.tileCount)
    (sized : Sized layout.tileSizeBytes tiles) :
    Write.Puts 0 (writeAll layout tiles) (coded layout tiles) () := by
  have row : Write.Puts 0 (writeTiles layout.tileSizeBytes 0 tiles)
      (codedTiles layout.tileSizeBytes tiles) () := (writeTiles_appends narrow 0 sized).puts 0
  have same : ¬tiles.length ≠ layout.tileCount := not_not_intro all
  rw [writeAll, coded]
  simp only [same, if_false]
  by_cases several : 1 < layout.tileCount
  · have opened : Write.Puts 0 (rangeFlag.writeFlag false >>= fun _ => Write.align) [0] () :=
      Write.closed_puts (fun _ room => Write.align_extends room) Write.padding_add
        (Field.writeFlag_appends "tile_start_and_end_present_flag" false)
        (Bits.ofBytes_singleton 0)
    have whole : Write.Puts 0 ((rangeFlag.writeFlag false >>= fun _ => Write.align) >>= fun _ =>
        writeTiles layout.tileSizeBytes 0 tiles)
        ([0] ++ codedTiles layout.tileSizeBytes tiles) () := opened.bind row
    rw [bind_assoc] at whole
    simpa only [if_pos several] using whole
  · have aligned : Write.Puts 0 (pure () >>= fun _ => Write.align) [] () :=
      Write.closed_puts (fun _ room => Write.align_extends room) Write.padding_add (.pure ()) rfl
    have whole : Write.Puts 0 ((pure () >>= fun _ => Write.align) >>= fun _ =>
        writeTiles layout.tileSizeBytes 0 tiles) ([] ++ codedTiles layout.tileSizeBytes tiles) () :=
      aligned.bind row
    simpa only [if_neg several, pure_bind] using whole

end TileGroup

end Av1Tiling
