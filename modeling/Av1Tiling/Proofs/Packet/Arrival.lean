import Av1Tiling.Packet.Splitter
import Av1Tiling.Proofs.Packet.History

/-!
# Arrival of a unit

The packets of a unit may come in any order, and they need not all come: a unit that is put
together, one that cannot be written and one that is dropped for a packet that does not fit all
leave the same repacker behind (`settled`), with nothing waiting and the decoder behind the unit of
the tiles.
-/

namespace Av1Tiling

/-- What is wrong with a packet next to those that wait. -/
inductive Refused (count : Nat) (waiting : List Packet) (packet : Packet) : Prop
  | noIndex (absent : packet.tileIndex = none)
  | outOfRange {tile : Nat} (index : packet.tileIndex = some tile) (outside : count ≤ tile)
  | duplicate {other : Packet} (waits : other ∈ waiting) (same : packet.tileIndex = other.tileIndex)
  | mismatch {other : Packet} (waits : other ∈ waiting) (differs : ¬packet.Alike other)
  | malformed {cause : PacketError} (failed : TileInfo.splitPacket packet.data = .error cause)

theorem Refused.of_subset {count : Nat} {waiting more : List Packet} {packet : Packet}
    (refused : Refused count waiting packet) (subset : waiting ⊆ more) :
    Refused count more packet := by
  cases refused with
  | noIndex absent => exact .noIndex absent
  | outOfRange index outside => exact .outOfRange index outside
  | duplicate waits same => exact .duplicate (subset waits) same
  | mismatch waits differs => exact .mismatch (subset waits) differs
  | malformed failed => exact .malformed failed

/-- The packets that are refused are those that do not go together with what waits. -/
theorem Refused.iff_not_companions {count : Nat} {waiting : List Packet} {packet : Packet}
    (companions : Companions count waiting) :
    Refused count waiting packet ↔ ¬Companions count (packet :: waiting) := by
  constructor
  · rintro (absent | ⟨index, outside⟩ | ⟨waits, same⟩ | ⟨waits, differs⟩ | failed) together
    · obtain ⟨tile, -, index⟩ := together.inside List.mem_cons_self
      rw [absent] at index
      cases index
    · obtain ⟨tile, inside, own⟩ := together.inside List.mem_cons_self
      rw [index] at own
      cases own
      exact absurd inside (Nat.not_lt.2 outside)
    · refine (List.nodup_cons.1 together.distinct).1 ?_
      rw [same]
      exact List.mem_map_of_mem waits
    · exact differs (together.alike _ List.mem_cons_self _ (List.mem_cons_of_mem _ waits))
    · obtain ⟨taken, split⟩ := together.readable packet List.mem_cons_self
      rw [failed] at split
      cases split
  · intro apart
    by_contra fits
    refine apart ⟨?_, ?_, ?_⟩
    · have distinct := companions.distinct
      refine (List.nodup_cons.2 ⟨fun member => ?_, distinct⟩).subperm fun index member => ?_
      · obtain ⟨other, waits, same⟩ := List.mem_map.1 member
        exact fits (.duplicate waits same.symm)
      · rcases List.mem_cons.1 member with rfl | waits
        · cases own : packet.tileIndex with
          | none => exact absurd (.noIndex own) fits
          | some tile =>
            have inside : tile < count :=
              Nat.lt_of_not_le fun outside => fits (.outOfRange own outside)
            exact List.mem_map_of_mem (List.mem_range.2 inside)
        · exact companions.indices.subset waits
    · have own : ∀ other ∈ waiting, packet.Alike other := fun other waits => by
        by_contra differs
        exact fits (.mismatch waits differs)
      rintro one (_ | ⟨_, first⟩) other (_ | ⟨_, second⟩)
      · exact .refl _
      · exact own other second
      · exact (own one first).symm
      · exact companions.alike one first other second
    · rintro one (_ | ⟨_, waits⟩)
      · cases split : TileInfo.splitPacket packet.data with
        | error cause => exact absurd (.malformed split) fits
        | ok taken => exact ⟨taken, rfl⟩
      · exact companions.readable one waits

namespace TileRepacker

open Repack

variable {config : RepackConfig} {events : List Event} {repacker : TileRepacker}
  {packets : List Packet}

/-- A repacker in which nothing waits has free slots only. -/
theorem Waits.withTiles_nil (waits : repacker.Waits packets) (idle : repacker.pending = 0)
    (slot : Nat → TileSlot) :
    repacker.withTiles repacker.config.tileCount slot [] = repacker := by
  obtain ⟨packet, other, come, rfl, slots, -⟩ := waits.placed
  have filled : repacker.filled = 0 := idle
  rw [waits.pending, List.length_map, List.length_eq_zero_iff] at idle
  rw [idle, tileSlots_nil] at slots
  rw [withTiles, tileSlots_nil, ← slots, List.length_nil, ← filled]

theorem settled_congr {other : TileRepacker} (same : other.clear = repacker.clear) (unit : Bytes) :
    other.settled unit = repacker.settled unit := by
  have decoder : other.decoder = repacker.decoder := (congrArg TileRepacker.decoder same :)
  rw [settled, settled, same, decoder]

/-- A unit comes whole, in whatever order. -/
theorem Waits.filterAll_whole {before : List Packet} (waits : repacker.Waits before)
    (idle : repacker.pending = 0) (whole : WholeUnit repacker.config.tileCount packets) :
    ∃ full : TileRepacker, full.clear = repacker.clear ∧
      Lined repacker.config.tileCount packets full.waiting ∧
      ∀ order, order.Perm packets → repacker.filterAll order =
        (List.replicate (repacker.config.tileCount - 1) (.ok none) ++ [full.completed.1],
          full.completed.2) := by
  have length := whole.length
  obtain ⟨packet, slot, come, rfl, arrived⟩ := whole.companions.placed
  rw [List.length_map] at length
  have empty := waits.withTiles_nil idle slot
  have every : come.Perm (List.range repacker.config.tileCount) :=
    arrived.subperm.perm_of_length_le (by rw [List.length_range, length])
  have full : repacker.withTiles repacker.config.tileCount slot come =
      repacker.withTiles repacker.config.tileCount slot (List.range repacker.config.tileCount) := by
    rw [withTiles, withTiles, tileSlots_congr fun tile _ => every.mem_iff, every.length_eq]
  refine ⟨repacker.withTiles repacker.config.tileCount slot come, ?_,
    arrived.lined (Nat.le_of_eq length.symm), ?_⟩
  · rw [clear_withTiles]
    conv_rhs => rw [← empty, clear_withTiles]
  · intro order perm
    obtain ⟨tiles, rfl, same⟩ := arrived.reorder perm
    have turned := arrived.subset (same.nodup_iff.2 arrived.nodup) same.subset
    rw [full]
    conv_lhs => rw [← empty]
    exact TileRepacker.filterAll_whole turned rfl waits.positive (same.trans every)

/-- Whatever comes of a unit, the repacker is behind that of the first tile. -/
theorem Waits.filterAll_settles {before : List Packet} (waits : repacker.Waits before)
    (idle : repacker.pending = 0) (whole : WholeUnit repacker.config.tileCount packets) :
    ∃ answer, ∃ first ∈ packets, ∃ info unit, first.tileIndex = some 0 ∧
      TileInfo.splitPacket first.data = .ok (info, unit) ∧ answer ≠ .ok none ∧
      ∀ order, order.Perm packets → repacker.filterAll order =
        (List.replicate (repacker.config.tileCount - 1) (.ok none) ++ [answer],
          repacker.settled unit) := by
  obtain ⟨full, same, lined, filtered⟩ := waits.filterAll_whole idle whole
  obtain ⟨slot, rest, first, member, own, index, holds⟩ := lined.first waits.positive
  have settled := settled_congr same slot.unit
  have every (order : List Packet) (perm : order.Perm packets) := filtered order perm
  rcases completed_settles own with ⟨data, run⟩ | ⟨cause, run⟩ <;>
    simp only [run, settled] at every
  · exact ⟨.ok (some _), first, member, slot.info, slot.unit, index, holds.split, nofun, every⟩
  · exact ⟨.error cause, first, member, slot.info, slot.unit, index, holds.split, nofun, every⟩

/-- As long as a tile is missing, packets that go together all wait. -/
theorem Waits.filterAll_few {before fed : List Packet} (waits : repacker.Waits before)
    (companions : Companions repacker.config.tileCount (fed.reverse ++ before))
    (few : fed.length + before.length < repacker.config.tileCount) :
    ∃ next : TileRepacker, repacker.filterAll fed = (List.replicate fed.length (.ok none), next) ∧
      next.Waits (fed.reverse ++ before) ∧ next.clear = repacker.clear := by
  -- `fed` is induced on: each packet of it moves over to `before`
  induction fed generalizing repacker before with
  | nil => exact ⟨repacker, rfl, waits, rfl⟩
  | cons packet rest ih =>
    rw [List.reverse_cons, List.append_assoc, List.singleton_append] at companions ⊢
    rw [List.length_cons] at few
    have meets := waits.filter packet
    generalize step : repacker.filter packet = outcome at meets
    cases meets with
    | refused refused =>
      obtain ⟨place, fits⟩ :=
        waits.fits_iff.2 (companions.of_sublist (List.sublist_append_right _ _))
      rw [refused] at fits
      cases fits
    | @waits next own same =>
      have config : next.config = repacker.config := (congrArg TileRepacker.config same :)
      rw [← config] at companions few
      obtain ⟨last, later, waits, kept⟩ := ih own companions (by rw [List.length_cons]; omega)
      exact ⟨last, filterAll_cons step (.ok none) later, waits, kept.trans same⟩
    | completes whole =>
      have length := whole.length
      rw [List.length_cons] at length
      omega

/-- What waits came with the packets. -/
theorem Waits.holds {slot : TileSlot} (waits : repacker.Waits packets)
    (member : slot ∈ repacker.waiting) : ∃ packet ∈ packets, slot.Holds packet := by
  obtain ⟨packet, own, come, rfl, slots, arrived⟩ := waits.placed
  rw [waiting, slots, filterMap_tileSlots] at member
  obtain ⟨tile, present, rfl⟩ := List.mem_map.1 member
  have came := of_decide_eq_true (List.mem_filter.1 present).2
  exact ⟨_, List.mem_map_of_mem came, arrived.holds tile came⟩

/-- As soon as a packet waits there is a first slot that is taken. -/
theorem Waits.exists_first (waits : repacker.Waits packets) (nonempty : packets ≠ []) :
    ∃ first rest, repacker.waiting = first :: rest ∧ ∃ packet ∈ packets, first.Holds packet := by
  cases waiting : repacker.waiting with
  | nil =>
    have length := waits.length_waiting.trans waits.filled
    rw [waiting] at length
    exact absurd (List.length_eq_zero_iff.1 length.symm) nonempty
  | cons first rest => exact ⟨first, rest, rfl, waits.holds (waiting ▸ List.mem_cons_self)⟩

/-- A packet that does not fit drops what waits, and its unit counts. -/
theorem Waits.filter_refused {packet : Packet} {unit : Bytes} (waits : repacker.Waits packets)
    (nonempty : packets ≠ [])
    (units : ∀ packet ∈ packets, ∃ info, TileInfo.splitPacket packet.data = .ok (info, unit))
    (refused : Refused repacker.config.tileCount packets packet) :
    ∃ error, repacker.filter packet = (.error (.raised error), repacker.settled unit) := by
  have apart := (Refused.iff_not_companions waits.companions).1 refused
  rw [← waits.fits_iff] at apart
  cases fits : slotFor repacker packet with
  | ok place => exact absurd ⟨place, fits⟩ apart
  | error error =>
    obtain ⟨first, rest, waiting, one, member, holds⟩ := waits.exists_first nonempty
    obtain ⟨info, split⟩ := units one member
    have both := holds.split.symm.trans split
    have unit : first.unit = unit := congrArg Prod.snd (Except.ok.inj both)
    exact ⟨error, by rw [filter_of_refused fits, abort_of_waiting waiting, unit]⟩

/-- The packets of a unit may come in any order: all of them but the last wait, and the answer to
    the last one and the repacker behind it are the same. -/
theorem Ran.filterAll_order {one two : List Packet} (ran : Ran config events repacker)
    (idle : repacker.pending = 0) (whole : WholeUnit config.tileCount one) (perm : two.Perm one) :
    ∃ answer behind, answer ≠ .ok none ∧
      repacker.filterAll one =
        (List.replicate (config.tileCount - 1) (.ok none) ++ [answer], behind) ∧
      repacker.filterAll two =
        (List.replicate (config.tileCount - 1) (.ok none) ++ [answer], behind) := by
  obtain ⟨rfl, waits⟩ := ran.waits
  obtain ⟨answer, _, -, _, _, -, -, settles, filtered⟩ := waits.filterAll_settles idle whole
  exact ⟨answer, _, settles, filtered one (.refl one), filtered two perm⟩

/-- The two tiles of a key frame, in both orders. -/
theorem Ran.filterAll_order_two_tiles :
    ∃ start packets answer behind, ofConfig ⟨2, 64⟩ = .ok start ∧
      packets = (TileSplitter.filter ⟨.default, .empty, none⟩
        ⟨[0x12, 0x00, 0x0A, 0x06, 0x18, 0x19, 0xBF, 0xFF, 0x00, 0x02, 0x1A, 0x02, 0x18, 0x40,
          0x22, 0x05, 0x00, 0x01, 0xAA, 0xAB, 0xBB], some 7, none, 1, 0, none⟩).1 ∧
      start.pending = 0 ∧ WholeUnit 2 packets ∧ answer ≠ .ok none ∧
      start.filterAll packets = ([.ok none, answer], behind) ∧
      start.filterAll packets.reverse = ([.ok none, answer], behind) := by
  generalize split : (TileSplitter.filter ⟨.default, .empty, none⟩ _).1 = packets
  have whole : WholeUnit 2 packets := by
    rw [← split]
    decide +kernel
  have opened : Ran ⟨2, 64⟩ [] ⟨⟨2, 64⟩, [none, none], 0, .empty⟩ := .opened rfl
  obtain ⟨answer, behind, answered, forth, back⟩ :=
    opened.filterAll_order rfl whole (List.reverse_perm packets)
  exact ⟨_, packets, answer, behind, rfl, rfl, rfl, whole, answered, forth, back⟩

/-- A unit that is dropped for a packet that does not fit leaves behind what the whole unit would
    have left, whatever would have come of it. The next unit is answered alike. -/
theorem Ran.dropped_counts {whole fed next : List Packet} {bad : Packet} {unit : Bytes}
    (ran : Ran config events repacker) (idle : repacker.pending = 0)
    (all : WholeUnit config.tileCount whole)
    (units : ∀ packet ∈ whole, ∃ info, TileInfo.splitPacket packet.data = .ok (info, unit))
    (part : fed.Subperm whole) (nonempty : fed ≠ []) (few : fed.length < config.tileCount)
    (refused : Refused config.tileCount fed bad) (later : WholeUnit config.tileCount next) :
    ∃ error put dropped,
      (repacker.filterAll whole).2 = put ∧
      (repacker.filterAll fed).2.filter bad = (.error (.raised error), dropped) ∧
      put.pending = 0 ∧ dropped.pending = 0 ∧ put.decoder = dropped.decoder ∧
      ∀ one two : List Packet, one.Perm next → two.Perm next →
        put.filterAll one = dropped.filterAll two := by
  obtain ⟨rfl, waits⟩ := ran.waits
  -- the whole unit
  obtain ⟨answer, first, member, info, own, -, split, -, filtered⟩ :=
    waits.filterAll_settles idle all
  obtain ⟨other, same⟩ := units first member
  obtain rfl : own = unit := congrArg Prod.snd (Except.ok.inj (split.symm.trans same))
  -- some of it and the packet that does not fit
  have none : taken events = [] := List.length_eq_zero_iff.1 (waits.pending.symm.trans idle)
  rw [none] at waits
  obtain ⟨last, fills, holds, kept⟩ := waits.filterAll_few
    (all.companions.of_subperm (by simpa using (List.reverse_perm fed).subperm.trans part)) few
  rw [List.append_nil] at holds
  have config : last.config = repacker.config := (congrArg TileRepacker.config kept :)
  obtain ⟨error, dropped⟩ := holds.filter_refused (by simpa using nonempty)
    (fun packet member => units packet (part.subset (List.mem_reverse.1 member)))
    (config ▸ refused.of_subset fun packet member => List.mem_reverse.2 member)
  rw [settled_congr kept] at dropped
  have settled : (repacker.settled own).Waits [] := waits.cleared rfl rfl rfl
  obtain ⟨_, _, -, _, _, -, -, -, again⟩ := settled.filterAll_settles settled.pending later
  refine ⟨error, repacker.settled own, repacker.settled own, ?_, ?_, settled.pending,
    settled.pending, rfl, fun one two first second => ?_⟩
  · rw [filtered whole (.refl whole)]
  · rw [fills, dropped]
  · rw [again one first, again two second]

/-- A tile of a key frame that comes twice, in front of both tiles of the frame. -/
theorem Ran.dropped_counts_two_tiles :
    ∃ start one two error put dropped unit,
      ofConfig ⟨2, 64⟩ = .ok start ∧
      [one, two] = (TileSplitter.filter ⟨.default, .empty, none⟩
        ⟨unit, some 7, none, 1, 0, none⟩).1 ∧
      unit = [0x12, 0x00, 0x0A, 0x06, 0x18, 0x19, 0xBF, 0xFF, 0x00, 0x02, 0x1A, 0x02, 0x18, 0x40,
          0x22, 0x05, 0x00, 0x01, 0xAA, 0xAB, 0xBB] ∧
      WholeUnit 2 [one, two] ∧
      (∀ packet ∈ [one, two], ∃ info, TileInfo.splitPacket packet.data = .ok (info, unit)) ∧
      Refused 2 [one] one ∧ (start.filterAll [one, two]).2 = put ∧
      (start.filterAll [one]).2.filter one = (.error (.raised error), dropped) ∧
      put.pending = 0 ∧ dropped.pending = 0 ∧ put.decoder = dropped.decoder ∧
      put.filterAll [one, two] = dropped.filterAll [one, two] := by
  obtain ⟨unit, bytes⟩ : ∃ unit : Bytes, unit = [0x12, 0x00, 0x0A, 0x06, 0x18, 0x19, 0xBF, 0xFF,
    0x00, 0x02, 0x1A, 0x02, 0x18, 0x40, 0x22, 0x05, 0x00, 0x01, 0xAA, 0xAB, 0xBB] := ⟨_, rfl⟩
  generalize split : (TileSplitter.filter ⟨.default, .empty, none⟩
    ⟨unit, some 7, none, 1, 0, none⟩).1 = packets
  obtain ⟨one, two, rfl⟩ : ∃ one two, packets = [one, two] := List.length_eq_two.1 (by
    rw [← split, bytes]
    decide +kernel)
  have whole : WholeUnit 2 [one, two] := by
    rw [← split, bytes]
    decide +kernel
  have units : ∀ packet ∈ [one, two],
      ∃ info, TileInfo.splitPacket packet.data = .ok (info, unit) := by
    intro packet member
    have own : ∀ packet ∈ [one, two],
        (TileInfo.splitPacket packet.data).toOption.map Prod.snd = some unit := by
      rw [← split, bytes]
      decide +kernel
    cases read : TileInfo.splitPacket packet.data with
    | error cause =>
      have none := own packet member
      rw [read] at none
      cases none
    | ok taken =>
      have same := own packet member
      rw [read] at same
      exact ⟨taken.1, congrArg Except.ok (Prod.ext rfl (Option.some.inj same))⟩
  have refused : Refused 2 [one] one := .duplicate List.mem_cons_self rfl
  have opened : Ran ⟨2, 64⟩ [] ⟨⟨2, 64⟩, [none, none], 0, .empty⟩ := .opened rfl
  obtain ⟨cause, put, dropped, all, part, settled, idle, same, again⟩ :=
    opened.dropped_counts rfl whole units ((List.sublist_append_left [one] [two]).subperm)
      (List.cons_ne_nil _ _) Nat.one_lt_two refused whole
  exact ⟨_, one, two, cause, put, dropped, unit, rfl, split.symm, bytes, whole, units, refused,
    all, part, settled, idle, same, again _ _ (.refl _) (.refl _)⟩

end TileRepacker
end Av1Tiling
