import Av1Tiling.Packet.Repacker
import Av1Tiling.Proofs.Checked
import Mathlib.Data.List.Perm.Basic

/-!
# Waiting packets

What one packet does to a repacker: it is refused, it waits in the slot of its tile, or it is the
last one and completes the unit. Whatever comes of the unit, nothing waits behind it any more and
the decoder is behind the unit of the first tile (`settled`), just as if the tiles had been dropped.
-/

namespace Av1Tiling

/-- What a repacker says to one packet. -/
abbrev Answer := Except (Failure PacketError) (Option Packet)

/-- The packets agree in all that the packets of a unit have in common. -/
structure Packet.Alike (packet other : Packet) : Prop where
  pts : packet.pts = other.pts
  dts : packet.dts = other.dts
  flags : packet.flags = other.flags
  streamIndex : packet.streamIndex = other.streamIndex

namespace Packet.Alike

variable {a b c : Packet}

protected theorem refl (packet : Packet) : packet.Alike packet :=
  ⟨rfl, rfl, rfl, rfl⟩

protected theorem symm (alike : a.Alike b) : b.Alike a :=
  ⟨alike.pts.symm, alike.dts.symm, alike.flags.symm, alike.streamIndex.symm⟩

protected theorem trans (first : a.Alike b) (second : b.Alike c) : a.Alike c :=
  ⟨first.pts.trans second.pts, first.dts.trans second.dts, first.flags.trans second.flags,
    first.streamIndex.trans second.streamIndex⟩

theorem withData (packet : Packet) (data : Bytes) : (packet.withData data).Alike packet :=
  ⟨rfl, rfl, rfl, rfl⟩

end Packet.Alike

/-- The slot has the tile info and the unit that are in the data of the packet. -/
structure TileSlot.Holds (slot : TileSlot) (packet : Packet) : Prop where
  split : TileInfo.splitPacket packet.data = .ok (slot.info, slot.unit)
  packet : slot.packet = packet.withData slot.unit

theorem TileSlot.Holds.alike {slot : TileSlot} {packet : Packet} (holds : slot.Holds packet) :
    slot.packet.Alike packet := by
  rw [holds.packet]
  exact .withData packet slot.unit

theorem TileSlot.Holds.unique {slot other : TileSlot} {packet : Packet} (holds : slot.Holds packet)
    (held : other.Holds packet) : slot = other := by
  obtain ⟨info, own⟩ := slot
  obtain ⟨otherInfo, otherOwn⟩ := other
  obtain ⟨rfl, unit⟩ := Prod.mk.inj (Except.ok.inj (holds.split.symm.trans held.split))
  have same := holds.packet
  rw [unit, ← held.packet] at same
  exact congrArg (TileSlot.mk info) same

/-- The decoder behind a unit. One that cannot be parsed leaves it as it was. -/
def DecoderState.behind (state : DecoderState) (unit : Bytes) : DecoderState :=
  match Decode.parseUnit unit state with
  | .ok _ behind => behind
  | .error _ _ => state

namespace TileRepacker

/-- What a repacker says to some packets, one after the other, up to a fault. -/
def filterAll (repacker : TileRepacker) : List Packet → List Answer × TileRepacker
  | [] => ([], repacker)
  | packet :: rest =>
    match repacker.filter packet with
    | (.error (.fault cause), repacker) => ([.error (.fault cause)], repacker)
    | (answer, repacker) =>
      let (answers, repacker) := repacker.filterAll rest
      (answer :: answers, repacker)

theorem filterAll_cons {repacker next last : TileRepacker} {packet : Packet}
    {rest : List Packet} {answer : Answer} {answers : List Answer}
    (first : repacker.filter packet = (answer, next)) (goesOn : GoesOn answer)
    (later : next.filterAll rest = (answers, last)) :
    repacker.filterAll (packet :: rest) = (answer :: answers, last) := by
  rcases answer with (error | cause) | out
  · simp only [filterAll, first, later]
  · exact absurd rfl (goesOn cause)
  · simp only [filterAll, first, later]

theorem filterAll_singleton (repacker : TileRepacker) (packet : Packet) :
    repacker.filterAll [packet] =
      ([(repacker.filter packet).1], (repacker.filter packet).2) := by
  rw [filterAll]
  rcases repacker.filter packet with ⟨(_ | _) | _, _⟩ <;> rfl

/-- The repacker with a tile in its slot. -/
def taking (repacker : TileRepacker) (tile : Nat) (slot : TileSlot) : TileRepacker :=
  { repacker with slots := repacker.slots.set tile (some slot), filled := repacker.filled + 1 }

/-- The repacker when nothing waits any more and the decoder is behind a unit. -/
def settled (repacker : TileRepacker) (unit : Bytes) : TileRepacker :=
  { repacker.clear with decoder := repacker.decoder.behind unit }

/-- What comes of the tiles that wait when all of them have come. -/
def completed (repacker : TileRepacker) : Answer × TileRepacker :=
  match repacker.waiting with
  | [] => (.error (.fault (.outsideBuffer 0 1 0)), repacker.clear)
  | first :: rest =>
    match Repack.merge (first :: rest) first repacker.clear with
    | .ok packet behind => (.ok (some packet), behind)
    | .error (.raised error) behind => (.error (.raised error), behind.abort)
    | .error (.fault cause) behind => (.error (.fault cause), behind)

theorem waiting_clear (repacker : TileRepacker) : repacker.clear.waiting = [] := by
  simp [waiting, clear]

theorem clear_clear (repacker : TileRepacker) : repacker.clear.clear = repacker.clear := by
  simp [clear]

theorem waiting_settled (repacker : TileRepacker) (unit : Bytes) :
    (repacker.settled unit).waiting = [] :=
  repacker.waiting_clear

/-- What is dropped counts as if it had been put together. -/
theorem abort_of_waiting {repacker : TileRepacker} {first : TileSlot} {rest : List TileSlot}
    (waiting : repacker.waiting = first :: rest) :
    repacker.abort = repacker.settled first.unit := by
  have head : repacker.waiting.head? = some first := by
    rw [waiting]
    rfl
  simp only [abort, head, settled, DecoderState.behind]
  cases Decode.parseUnit first.unit repacker.decoder <;> rfl

theorem abort_of_empty {repacker : TileRepacker} (empty : repacker.waiting = []) :
    repacker.abort = repacker.clear := by
  simp only [abort, empty, List.head?_nil]

theorem difference?_eq_none_iff {packet other : Packet} :
    difference? packet other = none ↔ packet.Alike other := by
  constructor
  · intro none
    rw [difference?] at none
    split_ifs at none with pts dts flags streamIndex
    exact ⟨not_not.1 pts, not_not.1 dts, not_not.1 flags, not_not.1 streamIndex⟩
  · intro alike
    simp only [difference?, alike.pts, alike.dts, alike.flags, alike.streamIndex, ne_eq,
      not_true_eq_false, if_false]

namespace Repack

theorem lift_bind {α β : Type} {result : Except (Failure PacketError) α} {value : α}
    (success : result = .ok value) (next : α → Repack β) :
    ((liftM result : Repack α) >>= next) = next value := by
  rw [success]
  rfl

/-- A packet fits that has the index of a free slot, agrees with what waits and can be taken
    apart. -/
theorem slotFor_eq_ok_iff {repacker : TileRepacker} {packet : Packet} {tile : Nat}
    {slot : TileSlot} :
    slotFor repacker packet = .ok (tile, slot) ↔
      packet.tileIndex = some tile ∧ tile < repacker.config.tileCount ∧
        repacker.slots[tile]?.join = none ∧
        (∀ other, repacker.waiting.head? = some other → packet.Alike other.packet) ∧
        slot.Holds packet := by
  constructor
  · intro run
    rw [slotFor] at run
    cases index : packet.tileIndex with
    | none =>
      simp only [index] at run
      cases run
    | some own =>
      simp only [index] at run
      by_cases outside : repacker.config.tileCount ≤ own
      · rw [if_pos outside] at run
        cases run
      rw [if_neg outside] at run
      by_cases taken : repacker.slots[own]?.join.isSome = true
      · rw [if_pos taken] at run
        cases run
      rw [if_neg taken] at run
      have alike : ∀ other, repacker.waiting.head? = some other →
          difference? packet other.packet = none := by
        intro other head
        cases differs : difference? packet other.packet with
        | none => rfl
        | some field =>
          simp only [head, differs] at run
          cases run
      have split : (TileInfo.splitPacket packet.data >>= fun parts =>
          pure (own, (⟨parts.1, packet.withData parts.2⟩ : TileSlot)) :
            Except PacketError (Nat × TileSlot)) = .ok (tile, slot) := by
        cases head : repacker.waiting.head? with
        | none => simpa only [head] using run
        | some other => simpa only [head, alike other head] using run
      obtain ⟨parts, success, same⟩ := Checked.bind_eq_ok.1 split
      cases same
      exact ⟨rfl, Nat.lt_of_not_le outside, by simpa using taken,
        fun other head => difference?_eq_none_iff.1 (alike other head), success, rfl⟩
  · rintro ⟨index, inside, free, alike, split, own⟩
    have bound : ¬repacker.config.tileCount ≤ tile := Nat.not_le.2 inside
    have whole : slot = ⟨slot.info, packet.withData slot.unit⟩ := by rw [← own]
    rw [slotFor, whole]
    simp only [index, bound, free, Option.isSome_none, Bool.false_eq_true, if_false]
    cases head : repacker.waiting.head? with
    | none =>
      simp only [split]
      rfl
    | some other =>
      simp only [difference?_eq_none_iff.2 (alike other head), split]
      rfl

/-- Nothing is written where the unit of tile 0 cannot be parsed. -/
theorem merge_of_unparsed {tiles : List TileSlot} {first : TileSlot} {repacker : TileRepacker}
    {cause : Failure ObuError} {failed : DecoderState}
    (parsed : Decode.parseUnit first.unit repacker.decoder = .error cause failed) :
    merge tiles first repacker = .error (cause.map .ofObu) repacker := by
  have stopped : parseTemplate first.unit repacker = .error (cause.map .ofObu) repacker := by
    simp only [parseTemplate, parsed]
  rw [merge, Step.bind_of_error stopped]

/-- What is written from what the unit of tile 0 parses to. -/
def written (sequence : Option SequenceHeader) (tiles : List TileSlot) (first : TileSlot)
    (parsed : List ParsedObu) (capacity : Nat) : Except (Failure PacketError) Bytes := do
  let template ← templateFor sequence tiles first parsed
  Assemble.unit template parsed capacity

/-- The decoder is behind a unit that was parsed, whether all of it could be written or not. -/
theorem merge_of_parsed {tiles : List TileSlot} {first : TileSlot} {repacker : TileRepacker}
    {parsed : List ParsedObu} {behind : DecoderState}
    (run : Decode.parseUnit first.unit repacker.decoder = .ok parsed behind) :
    merge tiles first repacker =
      match written behind.sequence tiles first parsed repacker.config.maxOutputSize with
      | .ok data => .ok (first.packet.withData data) { repacker with decoder := behind }
      | .error cause => .error cause { repacker with decoder := behind } := by
  have started : parseTemplate first.unit repacker =
      .ok parsed { repacker with decoder := behind } := by
    simp only [parseTemplate, run]
  rw [merge, Step.bind_of_ok started, Step.get_bind, written]
  cases templateFor behind.sequence tiles first parsed with
  | error cause => rfl
  | ok template =>
    refine (congrFun (lift_bind rfl _) _).trans ?_
    rw [Step.get_bind, Checked.bind_of_ok rfl]
    cases Assemble.unit template parsed repacker.config.maxOutputSize <;> rfl

/-- A unit that can be parsed leaves the decoder behind it, one that cannot leaves it as it was. -/
theorem merge_leaves (tiles : List TileSlot) (first : TileSlot) (repacker : TileRepacker) :
    (∃ data, merge tiles first repacker = .ok (first.packet.withData data)
      { repacker with decoder := repacker.decoder.behind first.unit }) ∨
    ∃ cause, merge tiles first repacker =
      .error cause { repacker with decoder := repacker.decoder.behind first.unit } := by
  cases run : Decode.parseUnit first.unit repacker.decoder with
  | error cause failed =>
    right
    refine ⟨cause.map .ofObu, ?_⟩
    rw [merge_of_unparsed run]
    simp only [DecoderState.behind, run]
  | ok parsed behind =>
    rw [merge_of_parsed run]
    simp only [DecoderState.behind, run]
    cases written behind.sequence tiles first parsed repacker.config.maxOutputSize with
    | ok data => exact .inl ⟨data, rfl⟩
    | error cause => exact .inr ⟨cause, rfl⟩

end Repack

open Repack

variable {repacker : TileRepacker} {packet : Packet} {tile : Nat} {slot : TileSlot}

/-! ## One packet -/

theorem filter_of_refused {error : PacketError} (refused : slotFor repacker packet = .error error) :
    repacker.filter packet = (.error (.raised error), repacker.abort) := by
  have run : accept packet repacker = .error (.raised error) repacker := by
    rw [accept, Step.get_bind, refused]
    rfl
  rw [filter, run]

/-- A packet that fits waits, unless it is the last one. -/
theorem filter_of_slot (fits : slotFor repacker packet = .ok (tile, slot)) :
    repacker.filter packet =
      if repacker.filled + 1 < repacker.slots.length then
        (.ok none, repacker.taking tile slot)
      else
        (repacker.taking tile slot).completed := by
  have taken : accept packet repacker = (do
      let repacker ← get
      if repacker.filled < repacker.slots.length then
        return none
      else
        modify clear
        match repacker.waiting with
        | [] => throw (.fault (.outsideBuffer 0 1 0))
        | first :: rest => some <$> merge (first :: rest) first : Repack (Option Packet))
          (repacker.taking tile slot) := by
    rw [accept, Step.get_bind, Step.lift_bind fits]
    exact Step.bind_of_ok (Step.modify_eq _ _)
  have filled : (repacker.taking tile slot).filled = repacker.filled + 1 := rfl
  have length : (repacker.taking tile slot).slots.length = repacker.slots.length :=
    List.length_set ..
  rw [Step.get_bind, filled, length] at taken
  by_cases waits : repacker.filled + 1 < repacker.slots.length
  · rw [if_pos waits] at taken ⊢
    rw [filter, taken]
    rfl
  · rw [if_neg waits] at taken ⊢
    rw [Step.bind_of_ok (Step.modify_eq _ _)] at taken
    rw [filter, taken, completed]
    cases (repacker.taking tile slot).waiting with
    | nil => rfl
    | cons first rest =>
      simp only [Functor.map, EStateM.map]
      rcases merge (first :: rest) first (repacker.taking tile slot).clear with _ | ⟨_ | _, _⟩ <;> rfl

/-- Whatever comes of a unit, nothing waits behind it and the decoder is behind it. -/
theorem completed_settles {first : TileSlot} {rest : List TileSlot}
    (waiting : repacker.waiting = first :: rest) :
    (∃ data, repacker.completed =
      (.ok (some (first.packet.withData data)), repacker.settled first.unit)) ∨
    ∃ cause, repacker.completed = (.error cause, repacker.settled first.unit) := by
  have decoder : repacker.clear.decoder = repacker.decoder := rfl
  simp only [completed, waiting]
  rcases merge_leaves (first :: rest) first repacker.clear with ⟨data, run⟩ | ⟨cause, run⟩
  · rw [run]
    exact .inl ⟨data, rfl⟩
  · have nothing : (repacker.settled first.unit).abort = repacker.settled first.unit := by
      rw [abort_of_empty (waiting_settled repacker _), settled]
      simp only [clear, List.map_map]
      rfl
    rw [run]
    refine .inr ⟨cause, ?_⟩
    cases cause with
    | raised error => exact congrArg (Prod.mk _) nothing
    | fault cause => rfl

end TileRepacker

/-! ## The tiles of a unit -/

/-- The slots of a unit when the tiles `come` have come. -/
def tileSlots (count : Nat) (slot : Nat → TileSlot) (come : List Nat) :
    List (Option TileSlot) :=
  (List.range count).map fun tile => if tile ∈ come then some (slot tile) else none

section Slots

variable {count : Nat} {slot : Nat → TileSlot} {come : List Nat}

theorem length_tileSlots : (tileSlots count slot come).length = count := by
  rw [tileSlots, List.length_map, List.length_range]

theorem getElem?_tileSlots {tile : Nat} (inside : tile < count) :
    (tileSlots count slot come)[tile]? = some (if tile ∈ come then some (slot tile) else none) := by
  rw [tileSlots, List.getElem?_map, List.getElem?_range inside]
  rfl

/-- A tile that comes takes its slot. -/
theorem set_tileSlots (tile : Nat) :
    (tileSlots count slot come).set tile (some (slot tile)) =
      tileSlots count slot (tile :: come) := by
  refine List.ext_getElem? fun index => ?_
  by_cases inside : index < count
  · rw [List.getElem?_set, getElem?_tileSlots inside, getElem?_tileSlots inside]
    by_cases same : tile = index
    · rw [if_pos same, length_tileSlots, if_pos (same ▸ inside), same, if_pos List.mem_cons_self]
    · have other : index ∈ tile :: come ↔ index ∈ come := by
        rw [List.mem_cons]
        exact or_iff_right fun equal => same equal.symm
      rw [if_neg same]
      simp only [other]
  · rw [List.getElem?_eq_none (by rw [List.length_set, length_tileSlots]; omega),
      List.getElem?_eq_none (by rw [length_tileSlots]; omega)]

/-- The tiles that wait are those that have come, by their index. -/
theorem filterMap_tileSlots : (tileSlots count slot come).filterMap id =
    ((List.range count).filter (· ∈ come)).map slot := by
  rw [tileSlots, List.filterMap_map]
  induction List.range count with
  | nil => rfl
  | cons tile rest ih =>
    by_cases member : tile ∈ come
    · have kept : (decide (tile ∈ come)) = true := decide_eq_true member
      rw [List.filterMap_cons, Function.comp_apply, if_pos member, List.filter_cons, kept]
      exact congrArg (slot tile :: ·) ih
    · have dropped : ¬(decide (tile ∈ come)) = true := by
        rw [decide_eq_true_eq]
        exact member
      rw [List.filterMap_cons, Function.comp_apply, if_neg member, List.filter_cons,
        if_neg dropped]
      exact ih

theorem length_filter_come (nodup : come.Nodup) (inside : ∀ tile ∈ come, tile < count) :
    ((List.range count).filter (· ∈ come)).length = come.length := by
  have perm : ((List.range count).filter (· ∈ come)).Perm come := by
    refine (List.perm_ext_iff_of_nodup (List.nodup_range.filter _) nodup).2 fun tile => ?_
    rw [List.mem_filter, List.mem_range, decide_eq_true_eq]
    exact and_iff_right_of_imp (inside tile)
  exact perm.length_eq

theorem tileSlots_nil : tileSlots count slot [] = List.replicate count none := by
  simp only [tileSlots, List.not_mem_nil, if_false]
  rw [List.map_const', List.length_range]

/-- It does not matter in which order the tiles have come. -/
theorem tileSlots_congr {other : List Nat}
    (same : ∀ tile < count, tile ∈ come ↔ tile ∈ other) :
    tileSlots count slot come = tileSlots count slot other := by
  refine List.map_congr_left fun tile member => ?_
  simp only [same tile (List.mem_range.1 member)]

end Slots

/-- The packets of some tiles of one unit, and the slots that they take. -/
structure Arrived (count : Nat) (packet : Nat → Packet) (slot : Nat → TileSlot)
    (come : List Nat) : Prop where
  nodup : come.Nodup
  inside : ∀ tile ∈ come, tile < count
  index : ∀ tile ∈ come, (packet tile).tileIndex = some tile
  holds : ∀ tile ∈ come, (slot tile).Holds (packet tile)
  alike : ∀ one ∈ come, ∀ other ∈ come, (packet one).Alike (packet other)

theorem Arrived.subset {count : Nat} {packet : Nat → Packet} {slot : Nat → TileSlot}
    {come some : List Nat} (arrived : Arrived count packet slot come) (nodup : some.Nodup)
    (subset : some ⊆ come) : Arrived count packet slot some :=
  ⟨nodup, fun tile member => arrived.inside tile (subset member),
    fun tile member => arrived.index tile (subset member),
    fun tile member => arrived.holds tile (subset member),
    fun one first other second => arrived.alike one (subset first) other (subset second)⟩

namespace TileRepacker

open Repack

/-- The repacker when the tiles `come` wait in their slots and are counted. -/
def withTiles (repacker : TileRepacker) (count : Nat) (slot : Nat → TileSlot)
    (come : List Nat) : TileRepacker :=
  { repacker with slots := tileSlots count slot come, filled := come.length }

variable {repacker : TileRepacker} {count : Nat} {packet : Nat → Packet} {slot : Nat → TileSlot}
  {come : List Nat} {tile : Nat}

theorem waiting_withTiles : (repacker.withTiles count slot come).waiting =
    ((List.range count).filter (· ∈ come)).map slot :=
  filterMap_tileSlots

/-- As many slots are taken as tiles have come. -/
theorem length_waiting_withTiles (repacker : TileRepacker)
    (arrived : Arrived count packet slot come) :
    (repacker.withTiles count slot come).waiting.length = come.length := by
  rw [waiting_withTiles, List.length_map, length_filter_come arrived.nodup arrived.inside]

theorem clear_withTiles : (repacker.withTiles count slot come).clear =
    repacker.withTiles count slot [] := by
  simp only [clear, withTiles, List.map_const', length_tileSlots, tileSlots_nil, List.length_nil]

/-- Whoever waits in front of the others came with one of the packets. -/
theorem head_withTiles {first : TileSlot}
    (head : (repacker.withTiles count slot come).waiting.head? = some first) :
    ∃ tile ∈ come, tile < count ∧ first = slot tile := by
  rw [waiting_withTiles] at head
  obtain ⟨tile, member, rfl⟩ := List.mem_map.1 (List.mem_of_mem_head? head)
  obtain ⟨inside, present⟩ := List.mem_filter.1 member
  exact ⟨tile, of_decide_eq_true present, List.mem_range.1 inside, rfl⟩

/-- A packet fits that brings another tile of the unit. -/
theorem slotFor_withTiles_iff (arrived : Arrived count packet slot come)
    (tiles : repacker.config.tileCount = count) {other : Packet} {taken : TileSlot} :
    slotFor (repacker.withTiles count slot come) other = .ok (tile, taken) ↔
      other.tileIndex = some tile ∧ tile < count ∧ tile ∉ come ∧
        (∀ one ∈ come, other.Alike (packet one)) ∧ taken.Holds other := by
  rw [slotFor_eq_ok_iff]
  have config : (repacker.withTiles count slot come).config.tileCount = count := tiles
  rw [config]
  refine and_congr_right fun index => and_congr_right fun inside => ?_
  have free : (repacker.withTiles count slot come).slots[tile]?.join = none ↔ tile ∉ come := by
    rw [withTiles, getElem?_tileSlots inside]
    by_cases present : tile ∈ come <;> simp [present]
  have alike : (∀ first, (repacker.withTiles count slot come).waiting.head? = some first →
      other.Alike first.packet) ↔ ∀ one ∈ come, other.Alike (packet one) := by
    constructor
    · intro known one member
      cases head : (repacker.withTiles count slot come).waiting.head? with
      | none =>
        have empty := length_waiting_withTiles repacker arrived
        rw [List.head?_eq_none_iff.1 head] at empty
        rw [List.length_eq_zero_iff.1 empty.symm] at member
        cases member
      | some first =>
        obtain ⟨lowest, present, -, rfl⟩ := head_withTiles head
        have first := known _ head
        exact (first.trans (arrived.holds lowest present).alike).trans
          (arrived.alike lowest present one member)
    · intro known first head
      obtain ⟨lowest, present, -, rfl⟩ := head_withTiles head
      exact (known lowest present).trans (arrived.holds lowest present).alike.symm
  rw [free, alike]

/-- The next tile waits with the others, unless it is the last one. -/
theorem filter_withTiles {repacker : TileRepacker}
    (arrived : Arrived count packet slot (tile :: come))
    (tiles : repacker.config.tileCount = count) :
    (repacker.withTiles count slot come).filter (packet tile) =
      if come.length + 1 < count then (.ok none, repacker.withTiles count slot (tile :: come))
      else (repacker.withTiles count slot (tile :: come)).completed := by
  have member : tile ∈ tile :: come := List.mem_cons_self
  obtain ⟨fresh, nodup⟩ := List.nodup_cons.1 arrived.nodup
  have fits : slotFor (repacker.withTiles count slot come) (packet tile) =
      .ok (tile, slot tile) :=
    (slotFor_withTiles_iff (arrived.subset nodup (List.subset_cons_self tile come)) tiles).2
      ⟨arrived.index tile member, arrived.inside tile member, fresh,
        fun one other => arrived.alike tile member one (List.mem_cons_of_mem tile other),
        arrived.holds tile member⟩
  have taken : (repacker.withTiles count slot come).taking tile (slot tile) =
      repacker.withTiles count slot (tile :: come) := by
    rw [taking, withTiles, set_tileSlots]
    rfl
  have filled : (repacker.withTiles count slot come).filled = come.length := rfl
  have length : (repacker.withTiles count slot come).slots.length = count := length_tileSlots
  rw [filter_of_slot fits, taken, filled, length]

/-! ## Several packets -/

/-- Behind packets that were answered without a fault the repacker goes on. -/
theorem filterAll_append {between last : TileRepacker} {front back : List Packet}
    {given answers : List Answer} (first : repacker.filterAll front = (given, between))
    (goesOn : ∀ answer ∈ given, GoesOn answer)
    (later : between.filterAll back = (answers, last)) :
    repacker.filterAll (front ++ back) = (given ++ answers, last) := by
  induction front generalizing repacker given with
  | nil =>
    obtain ⟨rfl, rfl⟩ := Prod.mk.inj first
    exact later
  | cons packet rest ih =>
    obtain ⟨answer, next, own⟩ : ∃ answer next, repacker.filter packet = (answer, next) :=
      ⟨_, _, rfl⟩
    rcases GoesOn.or_fault answer with survives | ⟨cause, rfl⟩
    · have run := filterAll_cons own survives (Prod.eta (next.filterAll rest)).symm
      obtain ⟨rfl, rest⟩ := Prod.mk.inj (run.symm.trans first)
      obtain ⟨-, others⟩ := List.forall_mem_cons.1 goesOn
      exact filterAll_cons own survives (ih (Prod.ext rfl rest) others)
    · simp only [filterAll, own] at first
      obtain ⟨rfl, -⟩ := Prod.mk.inj first
      exact absurd rfl (goesOn _ List.mem_cons_self cause)

/-- What one of several packets was answered with. -/
theorem filterAll_eq_cons {next : TileRepacker} {packet : Packet} {rest : List Packet}
    {answer : Answer} {answers : List Answer} (goesOn : GoesOn answer)
    (run : repacker.filterAll (packet :: rest) = (answer :: answers, next)) :
    ∃ between, repacker.filter packet = (answer, between) ∧
      between.filterAll rest = (answers, next) := by
  obtain ⟨other, between, first⟩ : ∃ other between, repacker.filter packet = (other, between) :=
    ⟨_, _, rfl⟩
  rcases GoesOn.or_fault other with survives | ⟨cause, rfl⟩
  · have both := filterAll_cons first survives (Prod.eta (between.filterAll rest)).symm
    obtain ⟨same, last⟩ := Prod.mk.inj (both.symm.trans run)
    obtain ⟨rfl, others⟩ := List.cons.inj same
    exact ⟨between, first, Prod.ext others last⟩
  · simp only [filterAll, first] at run
    obtain ⟨same, -⟩ := Prod.mk.inj run
    obtain ⟨rfl, -⟩ := List.cons.inj same
    exact absurd rfl (goesOn cause)

theorem goesOn_replicate (count : Nat) :
    ∀ answer ∈ List.replicate count (.ok none : Answer), GoesOn answer := by
  intro answer member
  rw [List.eq_of_mem_replicate member]
  exact .ok none

/-- All tiles wait as long as one is missing. -/
theorem filterAll_waits {order : List Nat}
    (arrived : Arrived count packet slot (order.reverse ++ come))
    (tiles : repacker.config.tileCount = count) (few : order.length + come.length < count) :
    (repacker.withTiles count slot come).filterAll (order.map packet) =
      (List.replicate order.length (.ok none),
        repacker.withTiles count slot (order.reverse ++ come)) := by
  -- `order` is induced on: each tile of it moves over to `come`
  induction order generalizing come with
  | nil => rfl
  | cons tile rest ih =>
    rw [List.reverse_cons, List.append_assoc, List.singleton_append] at arrived ⊢
    rw [List.length_cons] at few
    have first : Arrived count packet slot (tile :: come) :=
      arrived.subset (arrived.nodup.sublist (List.sublist_append_right _ _))
        (List.subset_append_right _ _)
    have waits := filter_withTiles first tiles
    rw [if_pos (by omega)] at waits
    exact filterAll_cons waits (.ok _) (ih arrived (by rw [List.length_cons]; omega))

/-- When the tiles of a unit have come, in whatever order, it is completed with the last of them. -/
theorem filterAll_whole {order : List Nat} (arrived : Arrived count packet slot order)
    (tiles : repacker.config.tileCount = count) (positive : 1 ≤ count)
    (perm : order.Perm (List.range count)) :
    (repacker.withTiles count slot []).filterAll (order.map packet) =
      (List.replicate (count - 1) (.ok none) ++
          [(repacker.withTiles count slot (List.range count)).completed.1],
        (repacker.withTiles count slot (List.range count)).completed.2) := by
  have length : order.length = count := perm.length_eq.trans List.length_range
  have nonempty : order ≠ [] := List.ne_nil_of_length_pos (by omega)
  obtain ⟨front, last, rfl⟩ : ∃ front last, order = front ++ [last] :=
    ⟨_, _, (List.dropLast_concat_getLast nonempty).symm⟩
  rw [List.length_append, List.length_singleton] at length
  have turned : Arrived count packet slot (last :: (front.reverse ++ [])) := by
    refine arrived.subset ?_ ?_
    · rw [List.append_nil, ← List.reverse_concat]
      exact (List.reverse_perm _).nodup_iff.2 arrived.nodup
    · rw [List.append_nil, ← List.reverse_concat]
      exact fun tile member => List.mem_reverse.1 member
  have waits : (repacker.withTiles count slot []).filterAll (front.map packet) = _ :=
    filterAll_waits (turned.subset (List.nodup_cons.1 turned.nodup).2 (List.subset_cons_self _ _))
      tiles (by rw [List.length_nil]; omega)
  have completes := filter_withTiles turned tiles
  rw [if_neg (by rw [List.length_append, List.length_reverse, List.length_nil]; omega)] at completes
  have all : repacker.withTiles count slot (last :: (front.reverse ++ [])) =
      repacker.withTiles count slot (List.range count) := by
    have slots : tileSlots count slot (last :: (front.reverse ++ [])) =
        tileSlots count slot (List.range count) := by
      refine tileSlots_congr fun tile inside => ?_
      rw [← perm.mem_iff]
      simp [or_comm]
    have filled : (last :: (front.reverse ++ [])).length = (List.range count).length := by
      rw [← perm.length_eq]
      simp
    rw [withTiles, withTiles, slots, filled]
  rw [all] at completes
  have both := filterAll_append waits (goesOn_replicate front.length)
    (filterAll_singleton (repacker.withTiles count slot (front.reverse ++ [])) (packet last))
  rw [List.map_append, List.map_singleton, both, completes, ← length, Nat.add_sub_cancel]

end TileRepacker

end Av1Tiling
