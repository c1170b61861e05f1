import Av1Tiling.Proofs.Packet.Slots
import Mathlib.Data.Finset.Card
import Mathlib.Data.List.Perm.Subperm
import Mathlib.Logic.Function.Basic

/-!
# The history of a repacker

A repacker is known by its calls and their answers alone. The packets that were answered with
nothing since the last output, error or reset (`taken`) are those that wait: they bring different
tiles of one unit (`Companions`), and some tile of it is missing. An output comes with the packet
of the last missing tile.
-/

namespace Av1Tiling

/-! ## The packets of a unit -/

/-- Packets that bring tiles of one unit, each of them another tile. -/
structure Companions (count : Nat) (packets : List Packet) : Prop where
  indices : (packets.map Packet.tileIndex).Subperm ((List.range count).map some)
  alike : ∀ one ∈ packets, ∀ other ∈ packets, one.Alike other
  readable : ∀ packet ∈ packets, ∃ taken, TileInfo.splitPacket packet.data = .ok taken

/-- Packets that bring all tiles of a unit, each of them once. -/
structure WholeUnit (count : Nat) (packets : List Packet) : Prop where
  indices : (packets.map Packet.tileIndex).Perm ((List.range count).map some)
  alike : ∀ one ∈ packets, ∀ other ∈ packets, one.Alike other
  readable : ∀ packet ∈ packets, ∃ taken, TileInfo.splitPacket packet.data = .ok taken

namespace WholeUnit

variable {count : Nat} {packets : List Packet}

theorem companions (whole : WholeUnit count packets) : Companions count packets :=
  ⟨whole.indices.subperm, whole.alike, whole.readable⟩

theorem length (whole : WholeUnit count packets) : packets.length = count := by
  simpa using whole.indices.length_eq

/-- It can be checked whether packets make up a unit. -/
instance : Decidable (WholeUnit count packets) :=
  decidable_of_iff ((packets.map Packet.tileIndex).Perm ((List.range count).map some) ∧
      (∀ one ∈ packets, ∀ other ∈ packets, TileRepacker.difference? one other = none) ∧
      ∀ packet ∈ packets, (TileInfo.splitPacket packet.data).isOk = true) <| by
    have readable (data : Bytes) : (TileInfo.splitPacket data).isOk = true ↔
        ∃ taken, TileInfo.splitPacket data = .ok taken := by
      cases TileInfo.splitPacket data <;> simp [Except.isOk, Except.toBool]
    simp only [TileRepacker.difference?_eq_none_iff, readable]
    exact ⟨fun ⟨indices, alike, readable⟩ => ⟨indices, alike, readable⟩,
      fun whole => ⟨whole.indices, whole.alike, whole.readable⟩⟩

end WholeUnit

namespace Arrived

variable {count tile : Nat} {packet : Nat → Packet} {slot : Nat → TileSlot} {come : List Nat}
  {packets : List Packet}

theorem nil (count : Nat) (packet : Nat → Packet) (slot : Nat → TileSlot) :
    Arrived count packet slot [] :=
  ⟨.nil, by simp, by simp, by simp, by simp⟩

theorem map_update {other : Packet} (fresh : tile ∉ come) :
    (tile :: come).map (Function.update packet tile other) = other :: come.map packet := by
  rw [List.map_cons, Function.update_self, List.map_congr_left fun one member =>
    Function.update_of_ne (ne_of_mem_of_not_mem member fresh) other packet]

/-- One more tile, whatever packet was thought to bring it. -/
theorem cons {other : Packet} {taken : TileSlot} (arrived : Arrived count packet slot come)
    (index : other.tileIndex = some tile) (inside : tile < count) (fresh : tile ∉ come)
    (alike : ∀ one ∈ come, other.Alike (packet one)) (holds : taken.Holds other) :
    Arrived count (Function.update packet tile other) (Function.update slot tile taken)
      (tile :: come) := by
  have old : ∀ one ∈ come, Function.update packet tile other one = packet one := by
    intro one member
    exact Function.update_of_ne (ne_of_mem_of_not_mem member fresh) other packet
  have kept : ∀ one ∈ come, Function.update slot tile taken one = slot one := by
    intro one member
    exact Function.update_of_ne (ne_of_mem_of_not_mem member fresh) taken slot
  have new : Function.update packet tile other tile = other := Function.update_self ..
  have added : Function.update slot tile taken tile = taken := Function.update_self ..
  refine ⟨List.nodup_cons.2 ⟨fresh, arrived.nodup⟩, ?_, ?_, ?_, ?_⟩
  · rintro one (_ | ⟨_, member⟩)
    · exact inside
    · exact arrived.inside one member
  · rintro one (_ | ⟨_, member⟩)
    · rw [new, index]
    · rw [old one member, arrived.index one member]
  · rintro one (_ | ⟨_, member⟩)
    · rw [new, added]
      exact holds
    · rw [old one member, kept one member]
      exact arrived.holds one member
  · rintro one (_ | ⟨_, first⟩) next (_ | ⟨_, second⟩)
    · exact .refl _
    · rw [new, old next second]
      exact alike next second
    · rw [new, old one first]
      exact (alike one first).symm
    · rw [old one first, old next second]
      exact arrived.alike one first next second

theorem subperm (arrived : Arrived count packet slot come) : come.Subperm (List.range count) :=
  arrived.nodup.subperm fun tile member => List.mem_range.2 (arrived.inside tile member)

theorem companions (arrived : Arrived count packet slot come) :
    Companions count (come.map packet) := by
  refine ⟨?_, ?_, ?_⟩
  · have own : (come.map packet).map Packet.tileIndex = come.map some := by
      rw [List.map_map]
      exact List.map_congr_left arrived.index
    rw [own]
    exact arrived.subperm.map (Option.some_injective _)
  · intro one first other second
    obtain ⟨tile, come, rfl⟩ := List.mem_map.1 first
    obtain ⟨next, came, rfl⟩ := List.mem_map.1 second
    exact arrived.alike tile come next came
  · intro one member
    obtain ⟨tile, present, rfl⟩ := List.mem_map.1 member
    exact ⟨_, (arrived.holds tile present).split⟩

/-- The packets in another order bring the tiles in another order. -/
theorem reorder (arrived : Arrived count packet slot come)
    (perm : packets.Perm (come.map packet)) :
    ∃ order : List Nat, packets = order.map packet ∧ order.Perm come := by
  have indices : (come.map packet).filterMap Packet.tileIndex = come := by
    rw [List.filterMap_map]
    exact (List.filterMap_congr arrived.index).trans List.filterMap_some
  refine ⟨packets.filterMap Packet.tileIndex, ?_, ?_⟩
  · have own : ∀ one ∈ packets, one.tileIndex.map packet = some one := by
      intro one member
      obtain ⟨tile, present, rfl⟩ := List.mem_map.1 (perm.subset member)
      rw [arrived.index tile present, Option.map_some]
    rw [List.map_filterMap, List.filterMap_congr own, List.filterMap_some]
  · have same := perm.filterMap Packet.tileIndex
    rwa [indices] at same

end Arrived

namespace Companions

variable {count : Nat} {packets part other : List Packet} {packet : Packet}

theorem of_sublist (companions : Companions count packets) (sublist : part.Sublist packets) :
    Companions count part :=
  ⟨(sublist.map _).subperm.trans companions.indices,
    fun one first other second =>
      companions.alike one (sublist.subset first) other (sublist.subset second),
    fun packet member => companions.readable packet (sublist.subset member)⟩

theorem of_subperm (companions : Companions count packets) (part : other.Subperm packets) :
    Companions count other := by
  obtain ⟨same, perm, sublist⟩ := part
  have sub := companions.of_sublist sublist
  exact ⟨(perm.map _).symm.subperm.trans sub.indices,
    fun one first other second =>
      sub.alike one (perm.symm.subset first) other (perm.symm.subset second),
    fun packet member => sub.readable packet (perm.symm.subset member)⟩

theorem whole (companions : Companions count packets) (all : count ≤ packets.length) :
    WholeUnit count packets := by
  refine ⟨companions.indices.perm_of_length_le ?_, companions.alike, companions.readable⟩
  simpa using all

theorem distinct (companions : Companions count packets) :
    (packets.map Packet.tileIndex).Nodup := by
  obtain ⟨indices, perm, sublist⟩ := companions.indices
  exact perm.nodup_iff.1 ((List.nodup_range.map (Option.some_injective _)).sublist sublist)

theorem inside (companions : Companions count packets) (member : packet ∈ packets) :
    ∃ tile < count, packet.tileIndex = some tile := by
  obtain ⟨tile, inside, same⟩ := List.mem_map.1
    (companions.indices.subset (List.mem_map_of_mem member))
  exact ⟨tile, List.mem_range.1 inside, same.symm⟩

/-- As many tiles as packets. -/
theorem card_indices (companions : Companions count packets) :
    (packets.filterMap Packet.tileIndex).toFinset.card = packets.length := by
  have own : (packets.filterMap Packet.tileIndex).map some = packets.map Packet.tileIndex := by
    rw [List.map_filterMap, ← List.filterMap_eq_map]
    refine List.filterMap_congr fun packet member => ?_
    obtain ⟨tile, -, index⟩ := companions.inside member
    simp [index]
  have nodup := companions.distinct
  rw [← own] at nodup
  rw [List.toFinset_card_of_nodup nodup.of_map, ← List.length_map some, own, List.length_map]

/-- One more packet brings another tile. -/
theorem next {first : Packet} {others : Nat → Packet} {slot : Nat → TileSlot} {come : List Nat}
    (companions : Companions count (first :: come.map others))
    (arrived : Arrived count others slot come) :
    ∃ tile taken, first.tileIndex = some tile ∧ tile < count ∧ tile ∉ come ∧
      (∀ one ∈ come, first.Alike (others one)) ∧ TileSlot.Holds taken first := by
  obtain ⟨tile, inside, index⟩ := companions.inside List.mem_cons_self
  obtain ⟨⟨info, unit⟩, split⟩ := companions.readable first List.mem_cons_self
  refine ⟨tile, ⟨info, first.withData unit⟩, index, inside, fun member => ?_,
    fun one member => ?_, split, rfl⟩
  · refine (List.nodup_cons.1 companions.distinct).1 ?_
    rw [index, ← arrived.index tile member]
    exact List.mem_map_of_mem (List.mem_map_of_mem member)
  · exact companions.alike first List.mem_cons_self _
      (List.mem_cons_of_mem first (List.mem_map_of_mem member))

/-- Each packet has the slot of its tile. -/
theorem placed (companions : Companions count packets) :
    ∃ packet slot come, packets = come.map packet ∧ Arrived count packet slot come := by
  induction packets with
  | nil =>
    let blank : Packet := ⟨[], none, none, 0, 0, none⟩
    let slot : TileSlot := ⟨⟨⟨0, 0, 0, 0, 0, 0, 0, 0⟩, [], 0, []⟩, blank⟩
    exact ⟨fun _ => blank, fun _ => slot, [], rfl, .nil ..⟩
  | cons first rest ih =>
    have fewer := companions.of_sublist (List.sublist_cons_self first rest)
    obtain ⟨packet, slot, come, rfl, arrived⟩ := ih fewer
    obtain ⟨tile, taken, index, inside, fresh, alike, holds⟩ := companions.next arrived
    exact ⟨_, _, tile :: come, (Arrived.map_update fresh).symm,
      arrived.cons index inside fresh alike holds⟩

end Companions

/-! ## What waits -/

/-- The slots of packets that bring all tiles of a unit, by index. -/
structure Lined (count : Nat) (packets : List Packet) (slots : List TileSlot) : Prop where
  length : slots.length = count
  holds : ∀ tile slot, slots[tile]? = some slot →
    ∃ packet ∈ packets, packet.tileIndex = some tile ∧ slot.Holds packet

theorem Lined.first {count : Nat} {packets : List Packet} {slots : List TileSlot}
    (lined : Lined count packets slots) (positive : 1 ≤ count) :
    ∃ first rest, ∃ packet ∈ packets, slots = first :: rest ∧ packet.tileIndex = some 0 ∧
      first.Holds packet := by
  cases slots with
  | nil => exact absurd lined.length (Nat.ne_of_lt positive)
  | cons first rest =>
    obtain ⟨packet, member, index, holds⟩ := lined.holds 0 first rfl
    exact ⟨first, rest, packet, member, rfl, index, holds⟩

/-- There is only one way to line packets of different tiles up. -/
theorem Lined.unique {count : Nat} {packets : List Packet} {slots others : List TileSlot}
    (distinct : (packets.map Packet.tileIndex).Nodup) (one : Lined count packets slots)
    (two : Lined count packets others) : slots = others := by
  refine List.ext_getElem (one.length.trans two.length.symm) fun tile inside insideToo => ?_
  obtain ⟨packet, member, index, holds⟩ := one.holds tile _ (List.getElem?_eq_getElem inside)
  obtain ⟨again, come, same, held⟩ := two.holds tile _ (List.getElem?_eq_getElem insideToo)
  obtain rfl := List.inj_on_of_nodup_map distinct member come (index.trans same.symm)
  exact holds.unique held

theorem tileSlots_update {count tile : Nat} {slot : Nat → TileSlot} {come : List Nat}
    {taken : TileSlot} (fresh : tile ∉ come) :
    tileSlots count (Function.update slot tile taken) come = tileSlots count slot come := by
  refine List.map_congr_left fun other _ => ?_
  by_cases member : other ∈ come
  · rw [if_pos member, if_pos member,
      Function.update_of_ne (ne_of_mem_of_not_mem member fresh)]
  · rw [if_neg member, if_neg member]

theorem Arrived.lined {count : Nat} {packet : Nat → Packet} {slot : Nat → TileSlot}
    {come : List Nat} {repacker : TileRepacker} (arrived : Arrived count packet slot come)
    (all : count ≤ come.length) :
    Lined count (come.map packet) (repacker.withTiles count slot come).waiting := by
  have perm : come.Perm (List.range count) :=
    arrived.subperm.perm_of_length_le (by simpa using all)
  have every : (List.range count).filter (· ∈ come) = List.range count :=
    List.filter_eq_self.2 fun tile member => decide_eq_true (perm.mem_iff.2 member)
  rw [TileRepacker.waiting_withTiles, every]
  refine ⟨by simp, fun tile own present => ?_⟩
  rw [List.getElem?_map, Option.map_eq_some_iff] at present
  obtain ⟨index, at', rfl⟩ := present
  obtain ⟨inside, rfl⟩ := List.getElem?_eq_some_iff.1 at'
  rw [List.getElem_range]
  have member : tile ∈ come := perm.mem_iff.2 (List.mem_range.2 (by simpa using inside))
  exact ⟨_, List.mem_map_of_mem member, arrived.index tile member, arrived.holds tile member⟩

namespace TileRepacker

open Repack

variable {repacker next : TileRepacker} {packets : List Packet} {packet : Packet}

/-- The tiles that wait are those in the slots that are taken. -/
theorem length_waiting_eq_countP (repacker : TileRepacker) :
    repacker.waiting.length = repacker.slots.countP Option.isSome := by
  rw [waiting, List.length_filterMap_eq_countP]
  rfl

theorem slots_clear : repacker.clear.slots = List.replicate repacker.slots.length none := by
  rw [clear, List.map_const']

/-- What is dropped leaves nothing but its mark on the decoder. -/
theorem clear_abort (repacker : TileRepacker) :
    ∃ decoder, repacker.abort = { repacker.clear with decoder } := by
  cases waiting : repacker.waiting with
  | nil => exact ⟨_, abort_of_empty waiting⟩
  | cons first rest => exact ⟨_, abort_of_waiting waiting⟩

/-- These packets wait in the slots of the repacker and are counted, and some tile of their unit is
    missing. -/
structure Waits (repacker : TileRepacker) (packets : List Packet) : Prop where
  placed : ∃ packet slot come, packets = come.map packet ∧
    repacker.slots = tileSlots repacker.config.tileCount slot come ∧
    Arrived repacker.config.tileCount packet slot come
  filled : repacker.filled = packets.length
  few : packets.length < repacker.config.tileCount

/-- What comes of one more packet: it is refused, it waits or it completes the unit. -/
inductive Meets (repacker : TileRepacker) (packets : List Packet) (packet : Packet) :
    Answer × TileRepacker → Prop
  | refused {error : PacketError} (refused : slotFor repacker packet = .error error) :
    Meets repacker packets packet (.error (.raised error), repacker.abort)
  | waits {next : TileRepacker} (waits : next.Waits (packet :: packets))
    (same : next.clear = repacker.clear) : Meets repacker packets packet (.ok none, next)
  | completes {full : TileRepacker}
    (whole : WholeUnit repacker.config.tileCount (packet :: packets))
    (lined : Lined repacker.config.tileCount (packet :: packets) full.waiting)
    (same : full.clear = repacker.clear) : Meets repacker packets packet full.completed

theorem waits_nil (positive : 1 ≤ repacker.config.tileCount)
    (empty : repacker.slots = List.replicate repacker.config.tileCount none)
    (filled : repacker.filled = 0) : repacker.Waits [] := by
  let blank : Packet := ⟨[], none, none, 0, 0, none⟩
  let slot : TileSlot := ⟨⟨⟨0, 0, 0, 0, 0, 0, 0, 0⟩, [], 0, []⟩, blank⟩
  refine ⟨⟨fun _ => blank, fun _ => slot, [], rfl, ?_, .nil ..⟩, filled, positive⟩
  rw [empty, tileSlots_nil]

namespace Waits

theorem companions (waits : repacker.Waits packets) :
    Companions repacker.config.tileCount packets := by
  obtain ⟨packet, slot, come, rfl, -, arrived⟩ := waits.placed
  exact arrived.companions

theorem positive (waits : repacker.Waits packets) : 1 ≤ repacker.config.tileCount :=
  Nat.lt_of_le_of_lt (Nat.zero_le _) waits.few

theorem pending (waits : repacker.Waits packets) : repacker.pending = packets.length :=
  waits.filled

/-- The repacker with its tiles in their slots. -/
theorem eq_withTiles (waits : repacker.Waits packets) :
    ∃ packet slot come, packets = come.map packet ∧
      Arrived repacker.config.tileCount packet slot come ∧
      repacker = repacker.withTiles repacker.config.tileCount slot come := by
  obtain ⟨packet, slot, come, rfl, slots, arrived⟩ := waits.placed
  refine ⟨packet, slot, come, rfl, arrived, ?_⟩
  have filled := waits.filled
  rw [List.length_map] at filled
  rw [withTiles, ← slots, ← filled]

/-- As many slots are taken as the repacker counts. -/
theorem length_waiting (waits : repacker.Waits packets) :
    repacker.waiting.length = repacker.filled := by
  obtain ⟨packet, slot, come, rfl, arrived, own⟩ := waits.eq_withTiles
  rw [own, length_waiting_withTiles repacker arrived]
  rfl

/-- Nothing waits in a repacker whose slots were cleared. -/
theorem cleared (waits : repacker.Waits packets) (config : next.config = repacker.config)
    (slots : next.slots = repacker.clear.slots) (filled : next.filled = 0) : next.Waits [] := by
  obtain ⟨-, slot, come, -, own, -⟩ := waits.placed
  refine waits_nil (config ▸ waits.positive) ?_ filled
  rw [slots, slots_clear, own, length_tileSlots, config]

theorem filter (waits : repacker.Waits packets) (packet : Packet) :
    repacker.Meets packets packet (repacker.filter packet) := by
  cases fits : slotFor repacker packet with
  | error cause =>
    rw [filter_of_refused fits]
    exact .refused fits
  | ok place =>
    obtain ⟨tile, taken⟩ := place
    obtain ⟨others, slot, come, rfl, arrived, own⟩ := waits.eq_withTiles
    have known := fits
    rw [own, slotFor_withTiles_iff arrived rfl] at known
    obtain ⟨index, inside, fresh, alike, holds⟩ := known
    have arrived := arrived.cons index inside fresh alike holds
    have old : repacker.withTiles repacker.config.tileCount (Function.update slot tile taken) come =
        repacker := by
      rw [withTiles, tileSlots_update fresh]
      exact own.symm
    have brought : (tile :: come).map (Function.update others tile packet) =
        packet :: come.map others := Arrived.map_update fresh
    have same (come : List Nat) (slot : Nat → TileSlot) :
        (repacker.withTiles repacker.config.tileCount slot come).clear = repacker.clear := by
      conv_rhs => rw [own]
      rw [clear_withTiles, clear_withTiles, withTiles, withTiles, tileSlots_nil, tileSlots_nil]
    have step : (repacker.withTiles _ _ come).filter _ = _ := filter_withTiles arrived rfl
    rw [old, Function.update_self] at step
    rw [step]
    by_cases few : come.length + 1 < repacker.config.tileCount
    · rw [if_pos few]
      refine .waits ⟨⟨_, _, tile :: come, brought.symm, rfl, arrived⟩, ?_, ?_⟩ (same ..)
      · rw [List.length_cons, List.length_map]
        rfl
      · rw [List.length_cons, List.length_map]
        exact few
    · rw [if_neg few]
      have many : repacker.config.tileCount ≤ (tile :: come).length := Nat.le_of_not_lt few
      refine .completes ?_ ?_ (same ..)
      · rw [← brought]
        refine arrived.companions.whole ?_
        rwa [List.length_map]
      · rw [← brought]
        exact arrived.lined many

end Waits

/-! ## The run of a repacker -/

/-- What happens to a repacker. -/
inductive Event
  | filter (packet : Packet) (answer : Answer)
  | reset

/-- The packets that were answered with nothing since the last output, error or reset. The latest
    event comes first. -/
def taken : List Event → List Packet
  | .filter packet (.ok none) :: earlier => packet :: taken earlier
  | _ => []

/-- The repacker behind some events, the latest first. There is none behind a fault. -/
inductive Ran (config : RepackConfig) : List Event → TileRepacker → Prop
  | opened {repacker : TileRepacker} (success : ofConfig config = .ok repacker) :
      Ran config [] repacker
  | filter {events : List Event} {repacker : TileRepacker} (packet : Packet)
      (ran : Ran config events repacker) (goesOn : GoesOn (repacker.filter packet).1) :
      Ran config (.filter packet (repacker.filter packet).1 :: events) (repacker.filter packet).2
  | reset {events : List Event} {repacker : TileRepacker} (ran : Ran config events repacker) :
      Ran config (.reset :: events) repacker.reset

theorem eq_of_ofConfig {config : RepackConfig} (success : ofConfig config = .ok repacker) :
    1 ≤ config.tileCount ∧
      repacker = ⟨config, List.replicate config.tileCount none, 0, .empty⟩ := by
  rw [ofConfig] at success
  split at success
  next valid =>
    obtain ⟨⟨⟩, checked, -⟩ := Checked.bind_eq_ok.1 valid
    rw [TileGeometry.checkRange] at checked
    split_ifs at checked with tiles
    exact ⟨tiles.1, (Except.ok.inj success).symm⟩
  next => cases success

/-- After any events those packets wait that were taken. -/
theorem Ran.waits {config : RepackConfig} {events : List Event} (ran : Ran config events repacker) :
    repacker.config = config ∧ repacker.Waits (taken events) := by
  induction ran with
  | opened success =>
    obtain ⟨positive, rfl⟩ := eq_of_ofConfig success
    exact ⟨rfl, waits_nil positive rfl rfl⟩
  | reset ran ih =>
    obtain ⟨rfl, waits⟩ := ih
    exact ⟨rfl, waits.cleared rfl rfl rfl⟩
  | @filter events repacker packet ran _ ih =>
    obtain ⟨rfl, waits⟩ := ih
    have meets := waits.filter packet
    generalize repacker.filter packet = outcome at meets ⊢
    cases meets with
    | refused =>
      obtain ⟨decoder, same⟩ := repacker.clear_abort
      rw [same]
      exact ⟨rfl, waits.cleared rfl rfl rfl⟩
    | waits next same => exact ⟨(congrArg config same :), next⟩
    | @completes full whole lined same =>
      obtain ⟨first, rest, _, -, own, -⟩ := lined.first waits.positive
      have config : full.config = repacker.config := (congrArg config same :)
      have slots : full.clear.slots = repacker.clear.slots := congrArg slots same
      rcases completed_settles own with ⟨data, run⟩ | ⟨cause, run⟩ <;> rw [run] <;>
        exact ⟨config, waits.cleared config slots rfl⟩

/-- Only the packet of the last missing tile brings an output. -/
theorem Waits.output (waits : repacker.Waits packets) {out : Packet}
    (run : repacker.filter packet = (.ok (some out), next)) :
    WholeUnit repacker.config.tileCount (packet :: packets) ∧
      (∀ one ∈ packet :: packets, out.Alike one) ∧ out.tileIndex = none := by
  have meets := waits.filter packet
  rw [run] at meets
  generalize settled : (Except.ok (some out), next) = outcome at meets
  cases meets with
  | refused => cases settled
  | waits => cases settled
  | @completes full whole lined same =>
    obtain ⟨first, rest, head, member, own, -, holds⟩ := lined.first waits.positive
    rcases completed_settles own with ⟨data, found⟩ | ⟨cause, found⟩ <;> rw [found] at settled <;>
      cases settled
    refine ⟨whole, fun one other => ?_, rfl⟩
    exact ((Packet.Alike.withData first.packet data).trans holds.alike).trans
      (whole.alike head member one other)

/-- What waits and the packet go together where the packet is not refused. -/
theorem Waits.fits_iff (waits : repacker.Waits packets) :
    (∃ place, slotFor repacker packet = .ok place) ↔
      Companions repacker.config.tileCount (packet :: packets) := by
  obtain ⟨others, slot, come, rfl, arrived, own⟩ := waits.eq_withTiles
  constructor
  · rintro ⟨⟨tile, taken⟩, fits⟩
    rw [own, slotFor_withTiles_iff arrived rfl] at fits
    obtain ⟨index, inside, fresh, alike, holds⟩ := fits
    rw [← Arrived.map_update fresh]
    exact (arrived.cons index inside fresh alike holds).companions
  · intro companions
    obtain ⟨tile, taken, known⟩ := companions.next arrived
    refine ⟨(tile, taken), ?_⟩
    rw [own]
    exact (slotFor_withTiles_iff arrived rfl).2 known

/-- The last missing tile is never refused. -/
theorem Waits.filter_whole (waits : repacker.Waits packets)
    (whole : WholeUnit repacker.config.tileCount (packet :: packets)) :
    ∃ full : TileRepacker, repacker.filter packet = full.completed ∧ full.clear = repacker.clear ∧
      Lined repacker.config.tileCount (packet :: packets) full.waiting := by
  have meets := waits.filter packet
  generalize repacker.filter packet = outcome at meets ⊢
  cases meets with
  | refused refused =>
    obtain ⟨place, fits⟩ := waits.fits_iff.2 whole.companions
    rw [refused] at fits
    cases fits
  | waits next same =>
    have config : _ = repacker.config := (congrArg config same :)
    have few := next.few
    rw [whole.length, ← config] at few
    exact absurd few (Nat.lt_irrefl _)
  | completes _ lined same => exact ⟨_, rfl, same, lined⟩

/-- A unit that cannot be parsed leaves the decoder as it was. -/
theorem completed_of_unparsed {first : TileSlot} {rest : List TileSlot}
    {cause : Failure ObuError} {failed : DecoderState} (waiting : repacker.waiting = first :: rest)
    (parsed : Decode.parseUnit first.unit repacker.decoder = .error cause failed) :
    repacker.completed = (.error (cause.map .ofObu), repacker.clear) := by
  have stopped : merge (first :: rest) first repacker.clear = _ := merge_of_unparsed parsed
  simp only [completed, waiting, stopped]
  cases cause with
  | raised error => simp only [Failure.map, abort_of_empty repacker.waiting_clear, clear_clear]
  | fault cause => rfl

/-- What a repacker with `count` slots says in every state: it counts as many tiles as slots are
    taken and as different tile indices were taken since the last output, error or reset, and some
    tile is missing. An output comes with the last missing tile, and has all that the packets of the
    unit have in common. Nothing waits behind an error, and a unit whose first tile cannot be parsed
    leaves the decoder as it was. -/
theorem Ran.answers {config : RepackConfig} {events : List Event}
    (ran : Ran config events repacker) :
    repacker.pending = repacker.slots.countP Option.isSome ∧
    repacker.pending = ((taken events).filterMap Packet.tileIndex).toFinset.card ∧
      repacker.pending < config.tileCount ∧
      ∀ packet answer next, repacker.filter packet = (answer, next) →
        (∀ out, answer = .ok (some out) →
          ((packet :: taken events).map Packet.tileIndex).Perm
              ((List.range config.tileCount).map some) ∧
            (∀ one ∈ packet :: taken events, out.Alike one) ∧ out.tileIndex = none) ∧
        (∀ error, answer = .error (.raised error) → next.pending = 0) ∧
        (∀ first ∈ packet :: taken events, ∀ info unit cause failed,
          WholeUnit config.tileCount (packet :: taken events) → first.tileIndex = some 0 →
          TileInfo.splitPacket first.data = .ok (info, unit) →
          Decode.parseUnit unit repacker.decoder = .error cause failed →
          answer = .error (cause.map .ofObu) ∧ next.decoder = repacker.decoder) := by
  obtain ⟨rfl, waits⟩ := ran.waits
  refine ⟨?_, ?_, ?_, ?_⟩
  · rw [← length_waiting_eq_countP, waits.length_waiting]
    rfl
  · rw [waits.pending, waits.companions.card_indices]
  · rw [waits.pending]
    exact waits.few
  intro packet answer next run
  have ran := ran.filter packet
  rw [run] at ran
  refine ⟨?_, ?_, ?_⟩
  · rintro out rfl
    obtain ⟨whole, alike, index⟩ := waits.output run
    exact ⟨whole.indices, alike, index⟩
  · rintro error rfl
    exact (ran (.raised error)).waits.2.pending
  · intro first member info unit cause failed whole index split parsed
    obtain ⟨full, filtered, same, lined⟩ := waits.filter_whole whole
    obtain ⟨slot, rest, head, other, own, lowest, holds⟩ := lined.first waits.positive
    obtain rfl : head = first :=
      List.inj_on_of_nodup_map whole.companions.distinct other member (lowest.trans index.symm)
    have unit : slot.unit = unit := by
      have both := holds.split.symm.trans split
      exact congrArg Prod.snd (Except.ok.inj both)
    have decoder : full.decoder = repacker.decoder := (congrArg TileRepacker.decoder same :)
    rw [← unit, ← decoder] at parsed
    rw [filtered, completed_of_unparsed own parsed] at run
    cases run
    exact ⟨rfl, decoder⟩

/-- The second tile waits for the first one: of a unit that cannot be parsed, and of one with
    nothing but a temporal delimiter. -/
theorem Ran.answers_two_tiles :
    let torn (tile : Nat) : Packet := ⟨List.replicate 228 0 ++ 1 :: List.replicate 71 0 ++ [0x80],
      some 5, none, 1, 0, some tile⟩
    let whole (tile : Nat) : Packet := ⟨2 :: List.replicate 63 0 ++ 2 :: List.replicate 127 0 ++
      1 :: List.replicate 11 0 ++ [2, 0, 0, 0, 1] ++ List.replicate 19 0 ++
      2 :: List.replicate 71 0 ++ [0x12, 0x00], some 7, none, 1, 0, some tile⟩
    (∃ repacker, Ran ⟨2, 64⟩ [.filter (torn 1) (.ok none)] repacker ∧ repacker.pending = 1 ∧
      (∃ error, (repacker.filter (torn 0)).1 = .error (.raised (.ofObu error))) ∧
      (repacker.filter (torn 0)).2.pending = 0 ∧
      (repacker.filter (torn 0)).2.decoder = repacker.decoder) ∧
    ∃ repacker out, Ran ⟨2, 64⟩ [.filter (whole 1) (.ok none)] repacker ∧ repacker.pending = 1 ∧
      (repacker.filter (whole 0)).1 = .ok (some out) ∧ out.data = [0x12, 0x00] ∧
      out.Alike (whole 1) ∧ out.tileIndex = none := by
  intro torn whole
  have opened : Ran ⟨2, 64⟩ [] ⟨⟨2, 64⟩, [none, none], 0, .empty⟩ := .opened rfl
  refine ⟨?_, ?_⟩
  · have one : ((⟨⟨2, 64⟩, [none, none], 0, .empty⟩ : TileRepacker).filter (torn 1)).1 = .ok none := by
      decide +kernel
    have idle : ((⟨⟨2, 64⟩, [none, none], 0, .empty⟩ : TileRepacker).filter (torn 1)).2.decoder =
        .empty := by
      decide +kernel
    have split : TileInfo.splitPacket (torn 0).data =
        .ok (⟨⟨0, 0, 0, 0, 0, 0, 0, 0⟩, [], 1, []⟩, [0x80]) := by decide +kernel
    have all : WholeUnit 2 [torn 0, torn 1] := by decide +kernel
    have index (tile : Nat) : (torn tile).tileIndex = some tile := rfl
    have waiting := opened.filter (torn 1) (one ▸ .ok none)
    rw [one] at waiting
    clear_value torn
    refine ⟨_, waiting, ?_, ?_⟩
    · simp [waiting.answers.2.1, taken, index]
    have forbidden : (Obu.readAll [0x80]).1 =
        [.error (.raised (.stream (.valueOutside "obu_forbidden_bit" 1 0 0)))] := by
      decide +kernel
    have parsed : Decode.parseUnit [0x80] .empty =
        .error (.raised (.stream (.valueOutside "obu_forbidden_bit" 1 0 0))) .empty := by
      rw [Decode.parseUnit, forbidden]
      rfl
    rw [← idle] at parsed
    obtain ⟨-, settles, unparsed⟩ := waiting.answers.2.2.2 (torn 0) _ _ rfl
    obtain ⟨answer, decoder⟩ :=
      unparsed (torn 0) List.mem_cons_self _ _ _ _ all (index 0) split parsed
    exact ⟨⟨_, answer⟩, settles _ answer, decoder⟩
  · have one : ((⟨⟨2, 64⟩, [none, none], 0, .empty⟩ : TileRepacker).filter (whole 1)).1 =
        .ok none := by
      decide +kernel
    have two : ((((⟨⟨2, 64⟩, [none, none], 0, .empty⟩ : TileRepacker).filter (whole 1)).2).filter
        (whole 0)).1 = .ok (some ((whole 0).withData [0x12, 0x00])) := by
      decide +kernel
    have index (tile : Nat) : (whole tile).tileIndex = some tile := rfl
    have waiting := opened.filter (whole 1) (one ▸ .ok none)
    rw [one] at waiting
    clear_value whole
    refine ⟨_, _, waiting, ?_, two, rfl, ?_⟩
    · simp [waiting.answers.2.1, taken, index]
    · obtain ⟨-, alike, none⟩ := (waiting.answers.2.2.2 (whole 0) _ _ rfl).1 _ two
      exact ⟨alike (whole 1) (by simp [taken]), none⟩

end TileRepacker
end Av1Tiling
