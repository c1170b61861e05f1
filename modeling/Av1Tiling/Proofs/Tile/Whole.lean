import Av1Tiling.Proofs.Code.Growth
import Av1Tiling.Proofs.Tile.Group

/-!
# Groups with all tiles of a frame

Where all tiles of a frame are written as one group, they are as many as the frame has and their
sizes can be said. What was written is parsed as one group with these tiles.
-/

namespace Av1Tiling.TileGroup

open Write

/-! ## Writing -/

theorem writeTiles_grows (sizeBytes index : Nat) (tiles : List Bytes) :
    Grows (writeTiles sizeBytes index tiles) fun more =>
      Sized sizeBytes tiles ∧ more = Bits.ofBytes (codedTiles sizeBytes tiles) := by
  induction tiles generalizing index with
  | nil => exact (Grows.pure _).mono fun _ same => ⟨by rintro _ ⟨⟩, same⟩
  | cons tile rest ih =>
    cases rest with
    | nil => exact (bytes_grows tile).mono fun _ same => ⟨by rintro _ ⟨⟩, same⟩
    | cons next rest =>
      have some : next :: rest ≠ [] := List.cons_ne_nil _ _
      refine .ite (fun _ => .throw_bind _ _) fun full => ?_
      refine ((LittleEndian.write_grows (tile.length - 1) sizeBytes).bind fun _ _ _ _ =>
        (bytes_grows tile).bind fun _ _ _ _ => ih (index + 1)).mono ?_
      rintro _ ⟨_, _, ⟨⟨-, fits⟩, rfl⟩, ⟨_, _, rfl, ⟨sized, rfl⟩, rfl⟩, rfl⟩
      have least : 1 ≤ tile.length := by
        cases tile with
        | nil => exact absurd rfl full
        | cons byte tile => exact Nat.succ_pos _
      rw [sized_cons some, codedTiles_cons _ _ some, Bits.ofBytes_append, Bits.ofBytes_append]
      exact ⟨⟨⟨least, by omega⟩, sized⟩, rfl⟩

/-- The flag of a group that does not say which tiles it holds, where there is a flag. -/
def wholeFlag (layout : TileLayout) : Bits :=
  if 1 < layout.tileCount then [false] else []

/-- What is written for all tiles of a frame, from wherever a byte is filled up. -/
structure WrittenWhole (layout : TileLayout) (tiles : List Bytes) (more : Bits) : Prop where
  all : tiles.length = layout.tileCount
  sized : Sized layout.tileSizeBytes tiles
  bits : ∃ count < 8, more = wholeFlag layout ++
    (List.replicate count false ++ Bits.ofBytes (codedTiles layout.tileSizeBytes tiles))

theorem writeAll_grows (layout : TileLayout) (tiles : List Bytes) :
    Grows (writeAll layout tiles) (WrittenWhole layout tiles) := by
  have behind : Grows (align >>= fun _ => writeTiles layout.tileSizeBytes 0 tiles) _ :=
    align_grows.bind fun _ _ _ _ => writeTiles_grows layout.tileSizeBytes 0 tiles
  refine .ite (fun _ => .throw_bind _ _) fun different => ?_
  have all : tiles.length = layout.tileCount := Decidable.not_not.1 different
  refine .ite (fun several => ?_) fun single => ?_
  · refine ((Field.writeFlag_grows _ false).bind fun _ _ _ _ => behind).mono ?_
    rintro _ ⟨_, _, rfl, ⟨_, _, ⟨count, few, rfl⟩, ⟨sized, rfl⟩, rfl⟩, rfl⟩
    exact ⟨all, sized, count, few, by rw [wholeFlag, if_pos several]⟩
  · refine behind.mono ?_
    rintro _ ⟨_, _, ⟨count, few, rfl⟩, ⟨sized, rfl⟩, rfl⟩
    exact ⟨all, sized, count, few, by rw [wholeFlag, if_neg single, List.nil_append]⟩

/-- From the start of a byte on, the group is made up of whole bytes. -/
theorem WrittenWhole.eq_coded {layout : TileLayout} {tiles : List Bytes} {data : Bytes}
    (written : WrittenWhole layout tiles (Bits.ofBytes data)) : data = coded layout tiles := by
  obtain ⟨count, few, bits⟩ := written.bits
  have length := congrArg List.length bits
  apply Bits.ofBytes_injective
  simp only [List.length_append, Bits.length_ofBytes, List.length_replicate, wholeFlag] at length
  rw [bits, TileGroup.coded, Bits.ofBytes_append, wholeFlag, ← List.append_assoc]
  congr 1
  by_cases several : 1 < layout.tileCount
  · rw [if_pos several, List.length_singleton] at length
    obtain rfl : count = 7 := by omega
    rw [if_pos several, if_pos several]
    rfl
  · rw [if_neg several, List.length_nil] at length
    obtain rfl : count = 0 := by omega
    rw [if_neg several, if_neg several]
    rfl

/-- Tiles that were written onto whole bytes, where there was room for them, are all tiles of the
    frame, and the bytes of their group were added. -/
theorem writeAll_sound {layout : TileLayout} (narrow : layout.tileSizeBytes ≤ 8) {tiles : List Bytes}
    {writer behind : BitWriter} (aligned : writer.pending = [])
    (room : writer.buffer.size + (coded layout tiles).length ≤ writer.buffer.capacity)
    (run : writeAll layout tiles writer = .ok () behind) :
    (tiles.length = layout.tileCount ∧ Sized layout.tileSizeBytes tiles) ∧
      writer.Takes (coded layout tiles) behind := by
  have tight : writer.Tight := ⟨by rw [aligned]; decide, by omega⟩
  obtain ⟨-, _, written, -⟩ := writeAll_grows layout tiles writer () behind tight run
  obtain ⟨other, success, takes⟩ :=
    writeAll_puts narrow written.all written.sized writer aligned room
  rw [run] at success
  cases success
  exact ⟨⟨written.all, written.sized⟩, takes⟩

/-! ## Parsing -/

/-- A tile behind its size is found. -/
theorem locateOne_coded {sizeBytes tile offset : Nat} {bytes rest : Bytes}
    (width : 1 ≤ sizeBytes ∧ sizeBytes ≤ 4)
    (sized : 1 ≤ bytes.length ∧ bytes.length ≤ 256 ^ sizeBytes) :
    locateOne sizeBytes tile offset
        (Bytes.ofNatLE sizeBytes (bytes.length - 1) ++ (bytes ++ rest)) =
      .ok ⟨tile, offset + sizeBytes, bytes.length⟩ := by
  obtain ⟨least, most⟩ := width
  have code : (Bytes.ofNatLE sizeBytes (bytes.length - 1) ++ (bytes ++ rest)).take sizeBytes =
      Bytes.ofNatLE sizeBytes (bytes.length - 1) := List.take_left' (Bytes.length_ofNatLE ..)
  have size : sizeOf sizeBytes tile
      (Bytes.ofNatLE sizeBytes (bytes.length - 1) ++ (bytes ++ rest)) = .ok (bytes.length - 1) := by
    rw [sizeOf, if_neg (by rw [List.length_append, Bytes.length_ofNatLE]; omega),
      if_neg (by omega), code, Bytes.toNatLE_ofNatLE, Nat.mod_eq_of_lt (by omega)]
  have short : 256 ^ sizeBytes ≤ 256 ^ 4 := Nat.pow_le_pow_right (by decide) most
  have long : Checked.long (bytes.length - 1 + 1) = .ok bytes.length :=
    Checked.long_eq_ok_iff.2 ⟨by omega, by omega⟩
  have inside : ¬(Bytes.ofNatLE sizeBytes (bytes.length - 1) ++ (bytes ++ rest)).length <
      sizeBytes + bytes.length := by
    rw [List.length_append, List.length_append, Bytes.length_ofNatLE]
    omega
  rw [locateOne, Checked.bind_of_ok size, Checked.bind_of_ok (Checked.lift_eq_ok.2 long),
    if_neg inside]

theorem locate_coded {sizeBytes : Nat} {payload : Bytes} {tiles : List Bytes}
    (width : 1 ≤ sizeBytes ∧ sizeBytes ≤ 4) (sized : Sized sizeBytes tiles) (some : tiles ≠ [])
    (tile offset : Nat) (here : payload.drop offset = codedTiles sizeBytes tiles) :
    ∃ spans, locate sizeBytes (tiles.length - 1) tile offset (payload.drop offset) = .ok spans ∧
      spans.map TileSpan.tile = List.range' tile tiles.length ∧
      spans.map (·.of payload) = tiles := by
  induction tiles generalizing tile offset with
  | nil => exact absurd rfl some
  | cons bytes rest ih =>
    cases rest with
    | nil =>
      have whole : (⟨tile, offset, bytes.length⟩ : TileSpan).of payload = bytes := by
        rw [TileSpan.of, Bytes.slice, here]
        exact List.take_length
      refine ⟨[⟨tile, offset, bytes.length⟩], ?_, rfl, congrArg (fun bytes => [bytes]) whole⟩
      rw [here]
      rfl
    | cons next rest =>
      have more : next :: rest ≠ [] := List.cons_ne_nil _ _
      obtain ⟨first, sized⟩ := (sized_cons more).1 sized
      rw [codedTiles_cons _ _ more] at here
      have behind : payload.drop (offset + sizeBytes + bytes.length) =
          codedTiles sizeBytes (next :: rest) := by
        rw [← List.drop_drop, ← List.drop_drop, here, List.drop_left' (Bytes.length_ofNatLE ..),
          List.drop_left]
      obtain ⟨spans, found, indices, tiles⟩ := ih sized more (tile + 1) _ behind
      have own : (⟨tile, offset + sizeBytes, bytes.length⟩ : TileSpan).of payload = bytes := by
        rw [TileSpan.of, Bytes.slice, ← List.drop_drop, here,
          List.drop_left' (Bytes.length_ofNatLE ..), List.take_left]
      refine ⟨⟨tile, offset + sizeBytes, bytes.length⟩ :: spans, ?_, ?_, ?_⟩
      · have count : (bytes :: next :: rest).length - 1 = (next :: rest).length - 1 + 1 := rfl
        have left : (payload.drop offset).drop (sizeBytes + bytes.length) =
            payload.drop (offset + sizeBytes + bytes.length) := by
          rw [List.drop_drop, Nat.add_assoc]
        have one : locateOne sizeBytes tile offset (payload.drop offset) =
            .ok ⟨tile, offset + sizeBytes, bytes.length⟩ := by
          rw [here]
          exact locateOne_coded width first
        rw [count, locate, Checked.bind_of_ok one]
        simp only [left]
        rw [Checked.bind_of_ok found]
        rfl
      · rw [List.map_cons, indices]
        rfl
      · rw [List.map_cons, own, tiles]

/-- The header does not say which tiles the group holds, so it holds all of them. -/
theorem readHeader_coded (layout : TileLayout) (rest : Bytes) :
    Read.runOn (readHeader layout) ((if 1 < layout.tileCount then [0] else []) ++ rest) =
      .ok (false, 0, layout.tileCount - 1)
        ⟨if 1 < layout.tileCount then 8 else 0, Bits.ofBytes rest⟩ := by
  by_cases several : 1 < layout.tileCount
  · have flag : (readPresent layout).Yields 0 [false] false := by
      rw [readPresent, if_pos several]
      exact (Field.readFlag_decodes _).yields false 0 trivial
    have padding : Read.zeroPadding.Yields 1 (List.replicate 7 false) () := fun _ => rfl
    have whole : (readHeader layout).Yields 0 ([false] ++ ([] ++ (List.replicate 7 false ++ [])))
        (false, 0, layout.tileCount - 1) :=
      flag.bind (.bind (.pure _ _) (padding.bind (.pure _ _)))
    rw [if_pos several, if_pos several, Read.runOn, EStateM.run, BitReader.ofBytes,
      Bits.ofBytes_append]
    exact whole (Bits.ofBytes rest)
  · have flag : (readPresent layout).Yields 0 [] false := by
      rw [readPresent, if_neg several]
      exact .pure _ _
    have padding : Read.zeroPadding.Yields 0 [] () := fun rest => by
      have none : (⟨0, [] ++ rest⟩ : BitReader).untilAligned = 0 := by simp [BitReader.untilAligned]
      rw [Read.zeroPadding, Step.get_bind, none]
      rfl
    have whole : (readHeader layout).Yields 0 ([] ++ ([] ++ ([] ++ [])))
        (false, 0, layout.tileCount - 1) :=
      flag.bind (.bind (.pure _ _) (padding.bind (.pure _ _)))
    rw [if_neg several, if_neg several, Read.runOn, EStateM.run, BitReader.ofBytes]
    exact whole (Bits.ofBytes rest)

/-- One group with all tiles of a frame is parsed as these tiles. -/
theorem parse_coded {layout : TileLayout} {tiles : List Bytes}
    (width : 1 ≤ layout.tileSizeBytes ∧ layout.tileSizeBytes ≤ 4)
    (all : tiles.length = layout.tileCount) (some : tiles ≠ [])
    (sized : Sized layout.tileSizeBytes tiles) :
    ∃ group, parse (coded layout tiles) layout = .ok group ∧
      group.tiles.map TileSpan.tile = List.range layout.tileCount ∧
      group.tileBytes (coded layout tiles) = tiles := by
  have opening : (coded layout tiles).drop (if 1 < layout.tileCount then 1 else 0) =
      codedTiles layout.tileSizeBytes tiles := by
    rw [coded]
    split <;> rfl
  have header : ((if 1 < layout.tileCount then 8 else 0) + 7) / 8 =
      if 1 < layout.tileCount then 1 else 0 := by
    split <;> rfl
  have fits : (if 1 < layout.tileCount then 1 else 0) ≤ (coded layout tiles).length := by
    rw [coded]
    split <;> simp
  have run := readHeader_coded layout (codedTiles layout.tileSizeBytes tiles)
  obtain ⟨spans, found, indices, bytes⟩ := locate_coded width sized some 0 _ opening
  rw [all] at found
  refine ⟨⟨false, 0, layout.tileCount - 1, if 1 < layout.tileCount then 1 else 0, spans⟩,
    parse_eq_ok.2 ⟨⟨_, run, header.symm⟩, fits, Nat.zero_le _, found⟩, ?_, bytes⟩
  rw [indices, all, List.range_eq_range']

end Av1Tiling.TileGroup
