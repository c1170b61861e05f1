import Av1Tiling.Proofs.Frame.Retargeting
import Av1Tiling.Proofs.Packet.KeyFrame
import Av1Tiling.Proofs.Tile.Tiling

/-!
# Tiles that fit together

The tiles of an output share out the frame that their tile infos declare: they are those of the
layout in its frame headers, and start where they are declared to. How wide and how high a tile is
declared to be is not looked at. So the declared tiles are those of the layout exactly if each of
them reaches the next one on both axes, and the last ones the end of the frame.
-/

namespace Av1Tiling

open Write

/-! ## The tiles as they are declared -/

/-- The tile of the given index, as its geometry declares it. -/
def TileGeometry.rect (geometry : TileGeometry) (tile : Nat) : TileRect where
  column := tile % geometry.columns
  row := tile / geometry.columns
  x := geometry.x
  y := geometry.y
  width := geometry.tileWidth
  height := geometry.tileHeight

/-- The tiles that are declared by these geometries. -/
def declaredRect? (geometries : List TileGeometry) (tile : Nat) : Option TileRect :=
  geometries[tile]?.map fun geometry => geometry.rect tile

/-- The tile ends where the next one of its row and the next one of its column start. The last ones
    end with the frame. -/
structure TileGeometry.Reaches (geometries : List TileGeometry) (tile : Nat)
    (geometry : TileGeometry) : Prop where
  across : tile % geometry.columns + 1 < geometry.columns →
    geometries[tile + 1]?.map TileGeometry.x = some (geometry.x + geometry.tileWidth)
  right : tile % geometry.columns + 1 = geometry.columns →
    geometry.x + geometry.tileWidth = geometry.width
  down : tile / geometry.columns + 1 < geometry.rows →
    geometries[tile + geometry.columns]?.map TileGeometry.y =
      some (geometry.y + geometry.tileHeight)
  bottom : tile / geometry.columns + 1 = geometry.rows →
    geometry.y + geometry.tileHeight = geometry.height

/-- The declared tiles share out the declared frame, and are the tiles of the layout. -/
structure FitTogether (first : TileGeometry) (geometries : List TileGeometry)
    (layout : TileLayout) : Prop where
  tiling : Tiling first.width first.height first.columns first.rows (declaredRect? geometries)
  placed : declaredRect? geometries = layout.rect?

/-- A tile ends where its axis goes on, if that is the start of the next tile. The last one ends
    with the frame. -/
theorem Edges.eq_stopAt_iff {length index stop : Nat} {starts : List Nat} {next? : Option Nat}
    (edges : Edges length starts) (inside : index < starts.length)
    (next : index + 1 < starts.length → next? = starts[index + 1]?) :
    stop = stopAt length starts index ↔
      (index + 1 < starts.length → next? = some stop) ∧
        (index + 1 = starts.length → stop = length) := by
  by_cases more : index + 1 < starts.length
  · have found := List.getElem?_eq_getElem more
    have less := edges.inside _ (List.mem_of_getElem? found)
    have start : stopAt length starts index = starts[index + 1] := by
      rw [stopAt, found, Option.getD_some, Nat.min_eq_left (Nat.le_of_lt less)]
    rw [start, next more, found]
    constructor
    · rintro rfl
      exact ⟨fun _ => rfl, fun last => absurd more (Nat.not_lt.2 (Nat.le_of_eq last.symm))⟩
    · intro ⟨same, _⟩
      exact (Option.some.inj (same more)).symm
  · have last : index + 1 = starts.length := by omega
    have end_ : stopAt length starts index = length := by
      rw [stopAt, List.getElem?_eq_none (Nat.le_of_eq last.symm), Option.getD_none, Nat.min_self]
    rw [end_]
    exact ⟨fun same => ⟨fun less => absurd less more, fun _ => same⟩, fun ⟨_, same⟩ => same last⟩

namespace TileGrid

/-- The frame that was collected, and where its tiles start. -/
def placement (grid : TileGrid) : Placement where
  width := grid.geometry.width
  height := grid.geometry.height
  xs := grid.xs
  ys := grid.ys

namespace Collected

variable {first geometry : TileGeometry} {geometries : List TileGeometry} {grid : TileGrid}
  {tile : Nat}

theorem inside (collected : Collected first geometries grid)
    (present : geometries[tile]? = some geometry) : tile < grid.xs.length * grid.ys.length := by
  rw [← collected.total]
  exact (List.getElem?_eq_some_iff.1 present).1

/-- Behind a tile that is not the last one of its row there is a tile of the next column. -/
theorem next_column (collected : Collected first geometries grid)
    (present : geometries[tile]? = some geometry)
    (more : tile % grid.xs.length + 1 < grid.xs.length) :
    geometries[tile + 1]?.map TileGeometry.x = grid.xs[tile % grid.xs.length + 1]? := by
  have row : tile / grid.xs.length < grid.ys.length :=
    Nat.div_lt_of_lt_mul (collected.inside present)
  have split := Nat.div_add_mod tile grid.xs.length
  have column : (tile + 1) % grid.xs.length = tile % grid.xs.length + 1 := by
    rw [← Nat.mod_add_mod, Nat.mod_eq_of_lt more]
  have rows : grid.xs.length * (tile / grid.xs.length + 1) ≤ grid.xs.length * grid.ys.length :=
    Nat.mul_le_mul_left _ row
  rw [Nat.mul_succ] at rows
  have less : tile + 1 < geometries.length := by
    rw [collected.total]
    omega
  have found := List.getElem?_eq_getElem less
  rw [found, ← column, (collected.places _ _ found).x, Option.map_some]

/-- Below a tile that is not in the last row there is a tile of the next row. -/
theorem next_row (collected : Collected first geometries grid)
    (present : geometries[tile]? = some geometry)
    (more : tile / grid.xs.length + 1 < grid.ys.length) :
    geometries[tile + grid.xs.length]?.map TileGeometry.y =
      grid.ys[tile / grid.xs.length + 1]? := by
  have positive : 0 < grid.xs.length :=
    Nat.pos_of_mul_pos_right (Nat.zero_lt_of_lt (collected.inside present))
  have row : (tile + grid.xs.length) / grid.xs.length = tile / grid.xs.length + 1 :=
    Nat.add_div_right _ positive
  have less : tile + grid.xs.length < geometries.length := by
    rw [collected.total, Nat.mul_comm, ← Nat.div_lt_iff_lt_mul positive, row]
    exact more
  have found := List.getElem?_eq_getElem less
  rw [found, ← row, (collected.places _ _ found).y, Option.map_some]

/-- A tile that reaches the next ones ends where its column and its row do. -/
theorem reaches_iff (collected : Collected first geometries grid) (legal : grid.placement.Legal)
    (present : geometries[tile]? = some geometry) :
    geometry.Reaches geometries tile ↔
      geometry.x + geometry.tileWidth =
        stopAt grid.geometry.width grid.xs (tile % grid.xs.length) ∧
      geometry.y + geometry.tileHeight =
        stopAt grid.geometry.height grid.ys (tile / grid.xs.length) := by
  have places := collected.places tile geometry present
  have across : Edges grid.geometry.width grid.xs := legal.across
  have down : Edges grid.geometry.height grid.ys := legal.down
  have column := (List.getElem?_eq_some_iff.1 places.x).1
  have row := (List.getElem?_eq_some_iff.1 places.y).1
  rw [across.eq_stopAt_iff column (collected.next_column present),
    down.eq_stopAt_iff row (collected.next_row present)]
  constructor
  · rintro ⟨across, right, down, bottom⟩
    rw [places.columns] at across right down bottom
    rw [places.rows] at down bottom
    rw [places.width] at right
    rw [places.height] at bottom
    exact ⟨⟨across, right⟩, down, bottom⟩
  · rintro ⟨⟨across, right⟩, down, bottom⟩
    rw [← places.columns] at across right down bottom
    rw [← places.rows] at down bottom
    rw [← places.width] at right
    rw [← places.height] at bottom
    exact ⟨across, right, down, bottom⟩

/-- The declared tiles are those of the columns and rows on which they start, exactly if each of
    them reaches the next ones. -/
theorem declared_iff (collected : Collected first geometries grid)
    (legal : grid.placement.Legal) :
    declaredRect? geometries = grid.placement.rect? ↔
      ∀ (tile : Nat) (geometry : TileGeometry), geometries[tile]? = some geometry →
        geometry.Reaches geometries tile := by
  constructor
  · intro same tile geometry present
    have rect := congrFun same tile
    rw [declaredRect?, present, Option.map_some] at rect
    obtain ⟨x, y, atX, atY, rect⟩ := Placement.rect?_eq_some_iff.1 rect.symm
    have wide := legal.across.lt_stopAt atX
    have high := legal.down.lt_stopAt atY
    obtain ⟨-, -, left, top, width, height⟩ := TileRect.mk.inj rect
    refine (collected.reaches_iff legal present).2 ⟨?_, ?_⟩
    · rw [left, width]
      exact Nat.add_sub_of_le (Nat.le_of_lt wide)
    · rw [top, height]
      exact Nat.add_sub_of_le (Nat.le_of_lt high)
  · intro reaches
    funext tile
    cases present : geometries[tile]? with
    | none =>
      have outside : ¬tile < grid.xs.length * grid.ys.length := by
        rw [← collected.total]
        exact Nat.not_lt.2 (List.getElem?_eq_none_iff.1 present)
      rw [declaredRect?, present, Option.map_none, eq_comm, Option.eq_none_iff_forall_ne_some]
      intro rect found
      exact outside (Placement.exists_rect?_iff.1 ⟨rect, found⟩)
    | some geometry =>
      have places := collected.places tile geometry present
      obtain ⟨wide, high⟩ :=
        (collected.reaches_iff legal present).1 (reaches tile geometry present)
      rw [declaredRect?, present, Option.map_some, eq_comm, Placement.rect?_eq_some_iff]
      refine ⟨geometry.x, geometry.y, places.x, places.y, ?_⟩
      rw [TileGeometry.rect, places.columns]
      congr 1
      · exact Nat.eq_sub_of_add_eq' wide
      · exact Nat.eq_sub_of_add_eq' high

end Collected

/-- The tiles of the layout that is written are those of the collected columns and rows, which share
    out the collected frame. -/
theorem layoutFor_placement {grid : TileGrid} {frame : FrameHeader} {sequence : SequenceHeader}
    {chosen : TileLayout} (success : grid.layoutFor frame sequence = .ok chosen)
    (own : ∀ layout, frame.layout = some layout → layout.Expressible) :
    grid.placement.Legal ∧ chosen.rect? = grid.placement.rect? := by
  obtain ⟨found, placed, checked, -⟩ := layoutFor_found success
  obtain ⟨-, expressible, cols, rows, startsAt, xs, ys⟩ := layoutFor_sound success own
  have size := SuperblockGrid.checked_eq checked
  have placement : grid.placement = chosen.placement := by
    rw [TileGrid.placement, TileLayout.placement, startsAt.1, startsAt.2, List.dropLast_concat,
      List.dropLast_concat, xs, ys, size]
  refine ⟨?_, ?_⟩
  · have legal := TileLayout.ofPixelStarts_legal placed
    rwa [size] at legal
  · rw [placement]
    exact expressible.rect?_eq_placement

/-- The tiles of the layout that is written share out the declared frame. They are the declared
    tiles exactly if each of these reaches the next ones. -/
theorem layoutFor_tiling {grid : TileGrid} {frame : FrameHeader} {sequence : SequenceHeader}
    {first : TileGeometry} {geometries : List TileGeometry} {chosen : TileLayout}
    (collected : Collected first geometries grid)
    (success : grid.layoutFor frame sequence = .ok chosen)
    (own : ∀ layout, frame.layout = some layout → layout.Expressible) :
    Tiling first.width first.height first.columns first.rows chosen.rect? ∧
      (FitTogether first geometries chosen ↔
        ∀ (tile : Nat) (geometry : TileGeometry), geometries[tile]? = some geometry →
          geometry.Reaches geometries tile) := by
  obtain ⟨legal, same⟩ := layoutFor_placement success own
  have tiling : Tiling first.width first.height first.columns first.rows chosen.rect? := by
    rw [same, ← collected.columns, ← collected.rows, ← collected.geometry]
    exact legal.tiling
  refine ⟨tiling, ?_⟩
  rw [← collected.declared_iff legal, ← same]
  exact ⟨fun fits => fits.placed, fun placed => ⟨placed ▸ tiling, placed⟩⟩

end TileGrid

/-! ## The frame headers of an output -/

theorem Obu.exists_mem_row {items : List (ObuHeader × Bytes)} {header : ObuHeader} {payload : Bytes}
    (member : (header, payload) ∈ items) (start : Nat) :
    ∃ offset, Obu.placed offset header payload ∈ Obu.row start items := by
  induction items generalizing start with
  | nil => cases member
  | cons item rest ih =>
    rcases List.mem_cons.1 member with rfl | member
    · exact ⟨start, .head _⟩
    · obtain ⟨offset, later⟩ := ih member (start + (Obu.coded item.1 item.2).length)
      exact ⟨offset, .tail _ later⟩

namespace Assemble

variable {template : Template} {front back : List ParsedObu} {obu : Obu} {frame : FrameHeader}
  {state after : DecoderState}

/-- What is written in the place of the header of a frame with tiles is that header written again
    for the layout of the collected frame. -/
theorem header_written {assembly behind : Assembly}
    (interpreted : Decode.interpret obu state = .ok (.frameHeader frame) after)
    (inRange : state.InRange) (header : obu.header.InRange) (cut : frame.layout.isSome = true)
    (tight : assembly.writer.Tight)
    (run : Assemble.obu template ⟨obu, .frameHeader frame⟩ assembly = .ok () behind) :
    ∃ known chosen payload, template.sequence = some known ∧
      template.grid.layoutFor frame known = .ok chosen ∧
      (∀ layout, frame.layout = some layout → layout.Expressible) ∧
      frame.Rewritten obu.payload template.target chosen payload ∧
      payload.length ≤ Emit.maxPayload ∧
      assembly.writer.Takes (Obu.coded obu.header payload) behind.writer := by
  have legal := (Decode.interpret_outcome interpreted).frame_inRange inRange
  cases Decode.interpret_outcome interpreted with
  | existingFrame type idle present parsed shown =>
    rw [(FrameHeader.parse_cut parsed).uncut shown] at cut
    cases cut
  | frameHeader type idle present parsed own =>
    simp only [Assemble.obu, own, Bool.false_eq_true, if_false] at run
    obtain ⟨known, chosen, between, same, layout, replaced, rfl⟩ := frameHeader_inv run
    obtain ⟨current, held, able⟩ := legal.layout own
    have expressible : ∀ layout, frame.layout = some layout → layout.Expressible :=
      fun other same => Option.some.inj (held.symm.trans same) ▸ able
    obtain ⟨checked, legal, -⟩ := TileGrid.layoutFor_sound layout expressible
    have narrow := SuperblockGrid.checked_sound checked
    obtain ⟨writer, payload, rfl, -, small, takes, content, rest, ⟨⟨ahead, behind, rfl⟩, added⟩, -,
      bits⟩ := replace_content header
        (frame.writeRewritten_carries parsed own narrow legal).addedBy tight replaced
    have read := TileLayout.code_yields narrow legal ahead.length (behind ++ rest)
    exact ⟨known, chosen, payload, same, layout, expressible,
      ⟨ahead, _, behind, rest, _, added, bits, read⟩, small, takes⟩

/-- A unit that was written is read with a header for each frame with tiles, written again for the
    layout of the collected frame. -/
theorem unit_header {capacity : Nat} {data : Bytes}
    (interprets : Decode.Interprets state (front ++ ⟨obu, .frameHeader frame⟩ :: back) after)
    (headers : ∀ item ∈ front ++ ⟨obu, .frameHeader frame⟩ :: back, item.obu.header.InRange)
    (inRange : state.InRange) (nonempty : template.tiles ≠ []) (cut : frame.layout.isSome = true)
    (run : unit template (front ++ ⟨obu, .frameHeader frame⟩ :: back) capacity = .ok data) :
    ∃ found known chosen, .ok found ∈ (Obu.readAll data).1 ∧ Recoded obu found ∧
      template.sequence = some known ∧ template.grid.layoutFor frame known = .ok chosen ∧
      (∀ layout, frame.layout = some layout → layout.Expressible) ∧
      frame.Rewritten obu.payload template.target chosen found.payload := by
  obtain ⟨behind, written, ends⟩ := unit_inv run
  rw [forM_append] at written
  obtain ⟨_, middle, first, written⟩ := Step.bind_eq_ok.1 written
  obtain ⟨_, next, second, third⟩ := Step.bind_eq_ok.1 written
  obtain ⟨between, before, interprets⟩ := Decode.Interprets.split interprets
  obtain ⟨beyond, interpreted, later⟩ := Decode.Interprets.cons_iff.1 interprets
  obtain ⟨frontHeaders, header, backHeaders⟩ :=
    List.forall_mem_append.1 headers |>.imp_right List.forall_mem_cons.1
  have legal := before.inRange inRange
  obtain ⟨walked, items, writable, takes, -⟩ :=
    obus_run before (.start template capacity state.pending) frontHeaders inRange nonempty first
  obtain ⟨known, chosen, payload, present, layout, expressible, rewritten, small, taken⟩ :=
    header_written interpreted legal header cut walked.tight second
  obtain ⟨walked, -⟩ := obu_step walked header legal nonempty
    (Decode.interpret_outcome interpreted) second
  obtain ⟨walked, others, writable', takes', -⟩ := obus_run later walked backHeaders
    ((Decode.interpret_safe obu).of_ok legal interpreted).2 nonempty third
  have own : Obu.Writable obu.header payload := by
    refine ⟨header, ?_, small⟩
    cases Decode.interpret_outcome interpreted with
    | existingFrame type => rcases type with type | type <;> rw [type] <;> rfl
    | frameHeader type => rcases type with type | type <;> rw [type] <;> rfl
  have all : ∀ item ∈ items ++ (obu.header, payload) :: others, Obu.Writable item.1 item.2 :=
    List.forall_mem_append.2 ⟨writable, List.forall_mem_cons.2 ⟨own, writable'⟩⟩
  have row : Obu.rowBytes (items ++ (obu.header, payload) :: others) =
      Obu.rowBytes items ++ (Obu.coded obu.header payload ++ Obu.rowBytes others) := by
    rw [Obu.rowBytes, List.flatMap_append, List.flatMap_cons]
    rfl
  obtain ⟨rfl, -⟩ := ends _ walked.tight (takes.trans (taken.trans takes'))
  have member : (obu.header, payload) ∈ items ++ (obu.header, payload) :: others :=
    List.mem_append_right _ (.head _)
  obtain ⟨offset, member⟩ := Obu.exists_mem_row member 0
  refine ⟨_, known, chosen, ?_, recoded_placed obu offset payload, present, layout, expressible,
    rewritten⟩
  rw [← row, (Obu.readAll_row all).1]
  exact List.mem_map_of_mem member

end Assemble

namespace TileRepacker

variable {repacker next : TileRepacker} {out : Packet}

/-- In an output, the header of each frame with tiles is written for a layout whose tiles share out
    the frame that the tile infos declare, and start where these say. The declared tiles are the
    tiles of that layout, and so share out the frame, exactly if each of them is as wide and as high
    as to reach the next ones. -/
theorem Ran.output_tiling {config : RepackConfig} {events : List Event} {packet : Packet}
    (ran : Ran config events repacker) (run : repacker.filter packet = (.ok (some out), next)) :
    ∃ first rest parsed, Lined config.tileCount (packet :: taken events) (first :: rest) ∧
      Decode.parseUnit first.unit repacker.decoder = .ok parsed next.decoder ∧
      ∀ obu frame, ⟨obu, .frameHeader frame⟩ ∈ parsed → frame.layout.isSome = true →
        ∃ found target chosen, .ok found ∈ (Obu.readAll out.data).1 ∧ Recoded obu found ∧
          frame.Rewritten obu.payload target chosen found.payload ∧
          Tiling first.info.geometry.width first.info.geometry.height
            first.info.geometry.columns first.info.geometry.rows chosen.rect? ∧
          (∀ (tile : Nat) (slot : TileSlot), (first :: rest)[tile]? = some slot →
            slot.info.geometry.width = first.info.geometry.width ∧
            slot.info.geometry.height = first.info.geometry.height ∧
            ∃ rect, chosen.rect? tile = some rect ∧ rect.x = slot.info.geometry.x ∧
              rect.y = slot.info.geometry.y) ∧
          (FitTogether first.info.geometry ((first :: rest).map (·.info.geometry)) chosen ↔
            ∀ (tile : Nat) (slot : TileSlot), (first :: rest)[tile]? = some slot →
              slot.info.geometry.Reaches ((first :: rest).map (·.info.geometry)) tile) := by
  obtain ⟨first, rest, parsed, template, lined, unit, made, data⟩ := ran.output_assembled run
  refine ⟨first, rest, parsed, lined, unit, fun obu frame member cut => ?_⟩
  obtain ⟨collected, -, tiles, -⟩ := templateFor_sound made
  obtain ⟨within, interprets⟩ := Decode.parseUnit_interprets unit
  obtain ⟨front, back, rfl⟩ := List.append_of_mem member
  obtain ⟨found, known, chosen, read, recoded, -, layout, expressible, rewritten⟩ :=
    Assemble.unit_header interprets (fun item member => (within item member).header) ran.inRange
      (tiles ▸ List.cons_ne_nil first rest) cut data
  have nonempty : (first :: rest).map (·.info.geometry) ≠ [] := List.cons_ne_nil _ _
  obtain ⟨tiling, fits⟩ :=
    TileGrid.layoutFor_tiling (TileGrid.collect_sound collected nonempty) layout expressible
  obtain ⟨-, placed⟩ := TileGrid.rect?_of_layoutFor collected nonempty layout expressible
  refine ⟨found, template.target, chosen, read, recoded, rewritten, tiling, ?_, ?_⟩
  · intro tile slot here
    exact placed tile slot.info.geometry (by rw [List.getElem?_map, here]; rfl)
  · rw [fits]
    constructor
    · intro reaches tile slot here
      exact reaches tile slot.info.geometry (by rw [List.getElem?_map, here]; rfl)
    · intro reaches tile geometry here
      rw [List.getElem?_map, Option.map_eq_some_iff] at here
      obtain ⟨slot, here, rfl⟩ := here
      exact reaches tile slot here

/-- Two halves side by side reach each other, and are the tiles of the frame that is written. -/
theorem Ran.output_tiling_sized_halves :
    ∃ one two repacker out next first second parsed obu frame found target chosen,
      halves sizedHeaders = [one, two] ∧ Ran ⟨2, 64⟩ [.filter one (.ok none)] repacker ∧
      repacker.filter two = (.ok (some out), next) ∧ Lined 2 [two, one] [first, second] ∧
      Decode.parseUnit first.unit repacker.decoder = .ok parsed next.decoder ∧
      ⟨obu, .frameHeader frame⟩ ∈ parsed ∧ frame.layout.isSome = true ∧
      .ok found ∈ (Obu.readAll out.data).1 ∧
      frame.Rewritten obu.payload target chosen found.payload ∧
      FitTogether first.info.geometry [first.info.geometry, second.info.geometry] chosen := by
  have joined : joins (halves sizedHeaders) (fun _ left right unit _ =>
      decide (left = ⟨128, 64, 2, 1, 0, 0, 64, 64⟩ ∧ right = ⟨128, 64, 2, 1, 64, 0, 64, 64⟩ ∧
        unit.frame.layout.isSome = true)) = true := by
    decide +kernel
  obtain ⟨one, two, repacker, out, next, first, second, unit, after, made, ran, run, lined, read,
    known⟩ := Ran.of_joins joined
  obtain ⟨left, right, cut⟩ := of_decide_eq_true known
  obtain ⟨own, rest, parsed, other, again, headers⟩ := ran.output_tiling run
  have whole := (ran.waits.2.output run).1
  obtain ⟨rfl, rfl⟩ := List.cons.inj (other.unique whole.companions.distinct lined)
  obtain ⟨rfl, rfl⟩ := EStateM.Result.ok.inj (again.symm.trans read)
  have member : ⟨unit.header, .frameHeader unit.frame⟩ ∈ unit.parsed := .tail _ (.tail _ (.head _))
  obtain ⟨found, target, chosen, present, -, rewritten, -, -, fits⟩ := headers _ _ member cut
  refine ⟨one, two, repacker, out, next, own, second, unit.parsed, unit.header, unit.frame, found,
    target, chosen, made, ran, run, lined, again, member, cut, present, rewritten,
    fits.2 fun tile slot here => ?_⟩
  rw [List.map_cons, List.map_cons, List.map_nil, left, right]
  match tile, here with
  | 0, here =>
    cases here
    rw [left]
    exact ⟨by decide, by decide, by decide, by decide⟩
  | 1, here =>
    cases here
    rw [right]
    exact ⟨by decide, by decide, by decide, by decide⟩

/-- Two tiles of a frame of 128 by 64, the first of which is declared as wide as the frame. -/
def overlapping : List Packet :=
  [(0, 128, 0xAA), (1, 64, 0xBB)].flatMap fun (tile, width, byte) =>
    (TileSplitter.filter ⟨⟨some tile, some ⟨128, 64, 2, 1, 64 * tile, 0, width, 64⟩⟩, .empty, none⟩
      ⟨sizedHeaders ++ [0x22, 0x01, byte], some 1, none, 0, 0, none⟩).1

/-- Tiles that overlap are put together: of the width and the height of a tile nothing is
    compared. -/
theorem not_output_tiling : ¬∀ (config : RepackConfig) (events : List Event)
    (repacker next : TileRepacker) (packet out : Packet) (first : TileSlot) (rest : List TileSlot)
    (parsed : List ParsedObu) (obu : Obu) (frame : FrameHeader),
    Ran config events repacker → repacker.filter packet = (.ok (some out), next) →
    Lined config.tileCount (packet :: taken events) (first :: rest) →
    Decode.parseUnit first.unit repacker.decoder = .ok parsed next.decoder →
    ⟨obu, .frameHeader frame⟩ ∈ parsed → frame.layout.isSome = true →
    Tiling first.info.geometry.width first.info.geometry.height first.info.geometry.columns
      first.info.geometry.rows (declaredRect? ((first :: rest).map (·.info.geometry))) := by
  intro claim
  have joined : joins overlapping (fun _ left right unit _ =>
      decide (left = ⟨128, 64, 2, 1, 0, 0, 128, 64⟩ ∧ right = ⟨128, 64, 2, 1, 64, 0, 64, 64⟩ ∧
        unit.frame.layout.isSome = true)) = true := by
    decide +kernel
  obtain ⟨one, two, repacker, out, next, first, second, unit, after, -, ran, run, lined, read,
    known⟩ := Ran.of_joins joined
  obtain ⟨left, right, cut⟩ := of_decide_eq_true known
  have decoder : next.decoder = after := by
    obtain ⟨own, rest, parsed, _, other, again, -⟩ := ran.output_assembled run
    have whole := (ran.waits.2.output run).1
    obtain ⟨rfl, rfl⟩ := List.cons.inj (other.unique whole.companions.distinct lined)
    exact (EStateM.Result.ok.inj (again.symm.trans read)).2
  have tiling := claim _ _ _ _ _ _ _ _ _ _ _ ran run lined (decoder ▸ read)
    (.tail _ (.tail _ (.head _))) cut
  rw [List.map_cons, List.map_cons, List.map_nil, left, right] at tiling
  -- the sample at column 64 of the first row is in both tiles
  have same : (0 : Nat) = 1 := tiling.disjoint 0 1 _ _ rfl rfl 64 0
    ⟨⟨by decide, by decide⟩, by decide, by decide⟩ ⟨⟨by decide, by decide⟩, by decide, by decide⟩
  cases same

end TileRepacker

end Av1Tiling
