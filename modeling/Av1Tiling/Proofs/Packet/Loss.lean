import Av1Tiling.Proofs.Packet.Arrival

/-!
# A lost packet

The packets of a stream come in order of their tiles, one unit after the other, and one of them is
lost. The others of its unit wait on, so the first packet of the next unit does not fit: it is
dropped together with what waits, and now the rest of that unit waits without its first packet. This
goes on as long as the stream follows as it is; a first packet that is fed twice in a row ends it.
-/

namespace Av1Tiling

/-- The packets of a unit in order of their tiles. -/
structure OrderedUnit (count : Nat) (packets : List Packet) : Prop
    extends WholeUnit count packets where
  ordered : packets.map Packet.tileIndex = (List.range count).map some

namespace OrderedUnit

variable {count : Nat} {packets : List Packet}

/-- The first packet, and only that, brings tile 0. -/
theorem first (unit : OrderedUnit count packets) (positive : 1 ≤ count) :
    ∃ first rest, packets = first :: rest ∧ first.tileIndex = some 0 ∧
      some 0 ∉ rest.map Packet.tileIndex ∧ rest.length = count - 1 := by
  obtain ⟨more, rfl⟩ : ∃ more, count = more + 1 := ⟨count - 1, by omega⟩
  have ordered := unit.ordered
  rw [List.range_succ_eq_map] at ordered
  obtain ⟨first, rest, rfl, lowest, later⟩ := List.map_eq_cons_iff.1 ordered
  have length := unit.length
  rw [List.length_cons] at length
  refine ⟨first, rest, rfl, lowest, ?_, by omega⟩
  rw [later]
  simp

/-- Of the packets that are left without one, the first brings the lowest tile. -/
theorem lowest {first : Packet} {rest : List Packet} {lost tile : Nat}
    (unit : OrderedUnit count packets) (left : packets.eraseIdx lost = first :: rest)
    (index : first.tileIndex = some tile) :
    ∀ other ∈ first :: rest, ∀ another, other.tileIndex = some another → tile ≤ another := by
  have increasing : (packets.map Packet.tileIndex).Pairwise
      fun one two => ∀ low high, one = some low → two = some high → low < high := by
    rw [unit.ordered, List.pairwise_map]
    refine List.pairwise_lt_range.imp ?_
    rintro low high less _ _ ⟨⟩ ⟨⟩
    exact less
  rw [List.pairwise_map] at increasing
  have kept := increasing.sublist (List.eraseIdx_sublist packets lost)
  rw [left] at kept
  rintro other (_ | ⟨_, member⟩) another own
  · rw [index] at own
    exact Nat.le_of_eq (Option.some.inj own)
  · exact Nat.le_of_lt ((List.pairwise_cons.1 kept).1 other member tile another index own)

/-- Tile 0 comes unless it is the one that is lost. -/
theorem zero_mem_eraseIdx_iff (unit : OrderedUnit count packets) (positive : 1 ≤ count)
    (lost : Nat) : some 0 ∈ (packets.eraseIdx lost).map Packet.tileIndex ↔ lost ≠ 0 := by
  obtain ⟨first, rest, rfl, lowest, others, -⟩ := unit.first positive
  cases lost with
  | zero => exact iff_of_false others (not_not.2 rfl)
  | succ lost =>
    refine iff_of_true ?_ (Nat.succ_ne_zero lost)
    rw [List.eraseIdx_cons_succ, List.map_cons, lowest]
    exact List.mem_cons_self

end OrderedUnit

/-- No packet of the one unit has the presentation time of one of the other. -/
def UnitsApart (one two : List Packet) : Prop :=
  ∀ first ∈ one, ∀ second ∈ two, first.pts ≠ second.pts

instance : DecidableRel UnitsApart := fun one two =>
  inferInstanceAs (Decidable (∀ first ∈ one, ∀ second ∈ two, first.pts ≠ second.pts))

namespace TileRepacker

open Repack

variable {config : RepackConfig} {events : List Event} {repacker next last : TileRepacker}
  {packets fed unit before : List Packet} {units : List (List Packet)} {packet out : Packet}
  {outs : List Packet} {count tile : Nat}

/-! ## The packet behind the gap -/

/-- A tile that waits already is a duplicate. -/
theorem Waits.slotFor_of_taken (waits : repacker.Waits packets)
    (index : packet.tileIndex = some tile) (taken : some tile ∈ packets.map Packet.tileIndex) :
    slotFor repacker packet = .error (.duplicateTile tile) := by
  obtain ⟨other, member, own⟩ := List.mem_map.1 taken
  obtain ⟨_, within, same⟩ := waits.companions.inside member
  obtain rfl := Option.some.inj (own.symm.trans same)
  obtain ⟨others, slot, come, rfl, slots, arrived⟩ := waits.placed
  obtain ⟨came, present, rfl⟩ := List.mem_map.1 member
  obtain rfl := Option.some.inj (own.symm.trans (arrived.index came present))
  have full : (repacker.slots[tile]?.join).isSome = true := by
    rw [slots, getElem?_tileSlots within, if_pos present]
    rfl
  rw [slotFor]
  simp only [index]
  rw [if_neg (Nat.not_le.2 within), if_pos full]
  rfl

/-- A packet of another time than those that wait is refused for it. -/
theorem Waits.slotFor_of_pts (waits : repacker.Waits packets) (nonempty : packets ≠ [])
    (index : packet.tileIndex = some tile) (inside : tile < repacker.config.tileCount)
    (free : some tile ∉ packets.map Packet.tileIndex)
    (apart : ∀ other ∈ packets, other.pts ≠ packet.pts) :
    slotFor repacker packet = .error (.metadataMismatch tile .pts) := by
  obtain ⟨first, rest, waiting, other, member, holds⟩ := waits.exists_first nonempty
  have differs : packet.pts ≠ first.packet.pts := by
    rw [holds.alike.pts]
    exact (apart other member).symm
  have empty : ¬(repacker.slots[tile]?.join).isSome = true := by
    obtain ⟨others, slot, come, rfl, slots, arrived⟩ := waits.placed
    have fresh : tile ∉ come := fun present => free <| by
      rw [← arrived.index tile present]
      exact List.mem_map_of_mem (List.mem_map_of_mem present)
    rw [slots, getElem?_tileSlots inside, if_neg fresh]
    exact Bool.false_ne_true
  have field : difference? packet first.packet = some .pts := if_pos differs
  rw [slotFor]
  simp only [index]
  rw [if_neg (Nat.not_le.2 inside), if_neg empty]
  simp only [waiting, List.head?_cons, field]
  rfl

/-- Why the first packet of a unit does not fit those that wait of another one. -/
def refusal (waiting : List Packet) : PacketError :=
  if some 0 ∈ waiting.map Packet.tileIndex then .duplicateTile 0 else .metadataMismatch 0 .pts

/-- The first packet of a unit is refused as long as packets of another one wait. -/
theorem Waits.filter_first (waits : repacker.Waits packets) (nonempty : packets ≠ [])
    (index : packet.tileIndex = some 0) (apart : ∀ other ∈ packets, other.pts ≠ packet.pts) :
    repacker.filter packet = (.error (.raised (refusal packets)), repacker.abort) := by
  refine filter_of_refused ?_
  by_cases taken : some 0 ∈ packets.map Packet.tileIndex
  · rw [refusal, if_pos taken]
    exact waits.slotFor_of_taken index taken
  · rw [refusal, if_neg taken]
    exact waits.slotFor_of_pts nonempty index waits.positive taken apart

/-- Nothing waits in a repacker that has dropped what waited. -/
theorem Waits.aborted (waits : repacker.Waits packets) :
    repacker.abort.Waits [] ∧ repacker.abort.config = repacker.config := by
  obtain ⟨decoder, same⟩ := repacker.clear_abort
  rw [same]
  exact ⟨waits.cleared rfl rfl rfl, rfl⟩

/-- What is dropped counts as the unit of the lowest tile that waits. -/
theorem Waits.abort_lowest {info : TileInfo} {data : Bytes} (waits : repacker.Waits packets)
    (member : packet ∈ packets) (index : packet.tileIndex = some tile)
    (lowest : ∀ other ∈ packets, ∀ another, other.tileIndex = some another → tile ≤ another)
    (split : TileInfo.splitPacket packet.data = .ok (info, data)) :
    repacker.abort = repacker.settled data := by
  obtain ⟨others, slot, come, rfl, slots, arrived⟩ := waits.placed
  obtain ⟨came, present, rfl⟩ := List.mem_map.1 member
  obtain rfl := Option.some.inj (index.symm.trans (arrived.index came present))
  have own : repacker.waiting =
      ((List.range repacker.config.tileCount).filter (· ∈ come)).map slot := by
    rw [waiting, slots, filterMap_tileSlots]
  have sorted := (List.pairwise_lt_range (n := repacker.config.tileCount)).filter (· ∈ come)
  have inside : tile ∈ (List.range repacker.config.tileCount).filter (· ∈ come) :=
    List.mem_filter.2 ⟨List.mem_range.2 (arrived.inside tile present), decide_eq_true present⟩
  have all : ∀ other ∈ (List.range repacker.config.tileCount).filter (· ∈ come), other ∈ come :=
    fun other member => of_decide_eq_true (List.mem_filter.1 member).2
  generalize (List.range repacker.config.tileCount).filter (· ∈ come) = tiles at *
  cases tiles with
  | nil => cases inside
  | cons head rest =>
    -- the tiles wait in order, so the lowest one is in front
    have first : head = tile := by
      have came := all head List.mem_cons_self
      have low := lowest _ (List.mem_map_of_mem came) head (arrived.index head came)
      rcases List.mem_cons.1 inside with same | later
      · exact same.symm
      · exact absurd ((List.pairwise_cons.1 sorted).1 tile later) (Nat.not_lt.2 low)
    have unit : (slot tile).unit = data :=
      congrArg Prod.snd (Except.ok.inj ((arrived.holds tile present).split.symm.trans split))
    rw [abort_of_waiting own, first, unit]

/-! ## The units behind the gap -/

/-- The answers to `units` units that come in order of their tiles while packets of another one
    wait. -/
def missed (count : Nat) (error : PacketError) : Nat → List Answer
  | 0 => []
  | units + 1 =>
    .error (.raised error) :: List.replicate (count - 1) (.ok none) ++
      missed count (.metadataMismatch 0 .pts) units

/-- Behind a gap the first packet of a unit is refused and the others wait. -/
theorem Waits.filterAll_refused (waits : repacker.Waits packets) (nonempty : packets ≠ [])
    (whole : OrderedUnit repacker.config.tileCount unit) (apart : UnitsApart packets unit) :
    ∃ next : TileRepacker, repacker.filterAll unit =
        (.error (.raised (refusal packets)) ::
          List.replicate (repacker.config.tileCount - 1) (.ok none), next) ∧
      next.Waits unit.tail.reverse ∧ next.config = repacker.config := by
  obtain ⟨first, rest, rfl, index, -, length⟩ := whole.first waits.positive
  have refused := waits.filter_first nonempty index fun other member =>
    apart other member first List.mem_cons_self
  obtain ⟨empty, config⟩ := waits.aborted
  have tail : Companions repacker.config.tileCount (rest.reverse ++ []) := by
    rw [List.append_nil]
    refine whole.companions.of_subperm ((List.reverse_perm rest).subperm.trans ?_)
    exact (List.sublist_cons_self first rest).subperm
  have few : rest.length + ([] : List Packet).length < repacker.config.tileCount := by
    rw [length, List.length_nil]
    exact Nat.sub_one_lt_of_lt waits.positive
  rw [← config] at tail few
  obtain ⟨next, answers, others, same⟩ := empty.filterAll_few tail few
  rw [length] at answers
  rw [List.append_nil] at others
  exact ⟨next, filterAll_cons refused (.raised _) answers, others,
    (congrArg TileRepacker.config same).trans config⟩

/-- Behind a gap no unit is put together any more. -/
theorem Waits.filterAll_missed (several : 2 ≤ count) (waits : repacker.Waits packets)
    (same : repacker.config.tileCount = count) (nonempty : packets ≠ [])
    (whole : ∀ unit ∈ units, OrderedUnit count unit)
    (apart : (packets :: units).Pairwise UnitsApart) :
    (repacker.filterAll units.flatten).1 = missed count (refusal packets) units.length := by
  -- `units` is induced on: the rest of each unit waits in front of the next one
  induction units generalizing repacker packets with
  | nil => rfl
  | cons unit later ih =>
    obtain ⟨others, between⟩ := List.pairwise_cons.1 apart
    obtain ⟨next, answers, waits, config⟩ := waits.filterAll_refused nonempty
      (same ▸ whole unit List.mem_cons_self) (others unit List.mem_cons_self)
    obtain ⟨first, rest, rfl, -, free, length⟩ :=
      (whole unit List.mem_cons_self).first (Nat.le_of_succ_le several)
    rw [List.tail_cons] at waits
    have gap : refusal rest.reverse = .metadataMismatch 0 .pts := by
      rw [refusal, if_neg]
      simpa using free
    have left : rest.reverse ≠ [] := by
      rw [ne_eq, List.reverse_eq_nil_iff]
      rintro rfl
      rw [List.length_nil] at length
      omega
    have further : (rest.reverse :: later).Pairwise UnitsApart := by
      obtain ⟨own, pairs⟩ := List.pairwise_cons.1 between
      refine List.pairwise_cons.2 ⟨fun other member one inside => ?_, pairs⟩
      exact own other member one (List.mem_cons_of_mem first (List.mem_reverse.1 inside))
    have more := ih waits (by rw [config, same]) left
      (fun other member => whole other (List.mem_cons_of_mem _ member)) further
    rw [gap] at more
    have goesOn := List.forall_mem_cons.2 ⟨GoesOn.raised (refusal packets),
      goesOn_replicate (repacker.config.tileCount - 1)⟩
    rw [List.flatten_cons, filterAll_append answers goesOn (Prod.eta _).symm, more, same]
    rfl

/-! ## The stream without the loss -/

/-- Units that a repacker puts together one after the other, each from its packets in order of
    their tiles. -/
inductive Delivers (count : Nat) :
    TileRepacker → List (List Packet) → List Packet → TileRepacker → Prop
  | nil {repacker : TileRepacker} : Delivers count repacker [] [] repacker
  | cons {repacker next last : TileRepacker} {unit : List Packet} {units : List (List Packet)}
      {out : Packet} {outs : List Packet}
      (ordered : unit.map Packet.tileIndex = (List.range count).map some)
      (filtered : repacker.filterAll unit =
        (List.replicate (count - 1) (.ok none) ++ [.ok (some out)], next))
      (later : Delivers count next units outs last) :
      Delivers count repacker (unit :: units) (out :: outs) last

/-- The answers to units that come in order of their tiles and are put together. -/
def delivered (count : Nat) (outs : List Packet) : List Answer :=
  outs.flatMap fun out => List.replicate (count - 1) (.ok none) ++ [.ok (some out)]

theorem goesOn_unit (count : Nat) (out : Packet) :
    ∀ answer ∈ List.replicate (count - 1) (.ok none : Answer) ++ [.ok (some out)],
      GoesOn answer :=
  List.forall_mem_append.2 ⟨goesOn_replicate _, List.forall_mem_singleton.2 (.ok _)⟩

theorem goesOn_delivered (count : Nat) (outs : List Packet) :
    ∀ answer ∈ delivered count outs, GoesOn answer := by
  intro answer member
  obtain ⟨out, -, member⟩ := List.mem_flatMap.1 member
  exact goesOn_unit count out answer member

theorem Delivers.filterAll (delivers : Delivers count repacker units outs last) :
    repacker.filterAll units.flatten = (delivered count outs, last) := by
  induction delivers with
  | nil => rfl
  | cons ordered filtered later ih =>
    rw [List.flatten_cons]
    exact filterAll_append filtered (goesOn_unit count _) ih

/-- A packet that is answered with nothing waits. -/
theorem Waits.waits_of_none (waits : repacker.Waits packets)
    (run : repacker.filter packet = (.ok none, next)) :
    next.Waits (packet :: packets) ∧ next.config = repacker.config := by
  have meets := waits.filter packet
  rw [run] at meets
  generalize settled : ((.ok none, next) : Answer × TileRepacker) = outcome at meets
  cases meets with
  | refused => cases settled
  | waits behind same =>
    cases settled
    exact ⟨behind, (congrArg config same :)⟩
  | completes whole lined same =>
    obtain ⟨first, rest, _, -, own, -⟩ := lined.first waits.positive
    rcases completed_settles own with ⟨data, found⟩ | ⟨cause, found⟩ <;> rw [found] at settled <;>
      cases settled

/-- Packets of which all but the last wait and the last brings an output make up a unit. -/
theorem Waits.whole_of_filterAll (waits : repacker.Waits before)
    (run : repacker.filterAll (fed ++ [packet]) =
      (List.replicate fed.length (.ok none) ++ [.ok (some out)], next)) :
    WholeUnit repacker.config.tileCount (packet :: (fed.reverse ++ before)) := by
  induction fed generalizing repacker before with
  | nil =>
    obtain ⟨_, filtered, rest⟩ := filterAll_eq_cons (.ok _) run
    exact (waits.output filtered).1
  | cons first rest ih =>
    obtain ⟨middle, filtered, later⟩ := filterAll_eq_cons (.ok none) run
    obtain ⟨behind, config⟩ := waits.waits_of_none filtered
    have whole := ih behind later
    rwa [config, ← List.singleton_append (x := first), ← List.append_assoc, ← List.reverse_cons]
      at whole

/-- A unit that is put together is whole, and the repacker is behind the unit of tile 0. -/
theorem Waits.delivered_unit (waits : repacker.Waits [])
    (ordered : unit.map Packet.tileIndex = (List.range repacker.config.tileCount).map some)
    (run : repacker.filterAll unit =
      (List.replicate (repacker.config.tileCount - 1) (.ok none) ++ [.ok (some out)], next)) :
    OrderedUnit repacker.config.tileCount unit ∧ ∃ first ∈ unit, ∃ info data,
      first.tileIndex = some 0 ∧ TileInfo.splitPacket first.data = .ok (info, data) ∧
      next = repacker.settled data := by
  have length : unit.length = repacker.config.tileCount := by
    simpa using congrArg List.length ordered
  have nonempty : unit ≠ [] := List.ne_nil_of_length_pos (length ▸ waits.positive)
  have whole : WholeUnit repacker.config.tileCount unit := by
    obtain ⟨front, packet, rfl⟩ : ∃ front packet, unit = front ++ [packet] :=
      ⟨_, _, (List.dropLast_concat_getLast nonempty).symm⟩
    have fewer : repacker.config.tileCount - 1 = front.length := by
      rw [← length, List.length_append, List.length_singleton, Nat.add_sub_cancel]
    rw [fewer] at run
    have turned := waits.whole_of_filterAll run
    rw [List.append_nil, ← List.reverse_concat] at turned
    refine ⟨(((List.reverse_perm _).map _).symm.trans turned.indices), ?_, ?_⟩
    · exact fun one first other second =>
        turned.alike one (List.mem_reverse.2 first) other (List.mem_reverse.2 second)
    · exact fun packet member => turned.readable packet (List.mem_reverse.2 member)
  obtain ⟨answer, first, member, info, data, index, split, -, filtered⟩ :=
    waits.filterAll_settles waits.pending whole
  have settled := (filtered unit (.refl unit)).symm.trans run
  exact ⟨⟨whole, ordered⟩, first, member, info, data, index, split,
    (congrArg Prod.snd settled).symm⟩

/-- Nothing waits behind units that were put together. -/
theorem Delivers.waits (delivers : Delivers count repacker units outs last)
    (waits : repacker.Waits []) (same : repacker.config.tileCount = count) :
    (∀ unit ∈ units, OrderedUnit count unit) ∧ last.Waits [] ∧ last.config.tileCount = count := by
  induction delivers with
  | nil => exact ⟨List.forall_mem_nil _, waits, same⟩
  | cons ordered filtered later ih =>
    subst same
    obtain ⟨whole, first, -, info, data, -, -, rfl⟩ := waits.delivered_unit ordered filtered
    obtain ⟨others, behind⟩ := ih (waits.cleared rfl rfl rfl) rfl
    exact ⟨List.forall_mem_cons.2 ⟨whole, others⟩, behind⟩

/-! ## The stream with the loss -/

theorem refusal_of_lost (unit : OrderedUnit count packets) (positive : 1 ≤ count) (lost : Nat) :
    refusal (packets.eraseIdx lost).reverse =
      if lost = 0 then .metadataMismatch 0 .pts else .duplicateTile 0 := by
  have lowest := unit.zero_mem_eraseIdx_iff positive lost
  have turned : some 0 ∈ (packets.eraseIdx lost).reverse.map Packet.tileIndex ↔ lost ≠ 0 := by
    rw [List.map_reverse, List.mem_reverse]
    exact lowest
  rw [refusal]
  by_cases zero : lost = 0
  · rw [if_pos zero, if_neg fun taken => turned.1 taken zero]
  · rw [if_neg zero, if_pos (turned.2 zero)]

/-- All packets of a unit but one wait. -/
theorem Waits.filterAll_lost (waits : repacker.Waits [])
    (whole : OrderedUnit repacker.config.tileCount unit)
    (inside : tile < repacker.config.tileCount) :
    ∃ next : TileRepacker, repacker.filterAll (unit.eraseIdx tile) =
        (List.replicate (repacker.config.tileCount - 1) (.ok none), next) ∧
      next.Waits (unit.eraseIdx tile).reverse ∧ next.clear = repacker.clear := by
  have length : (unit.eraseIdx tile).length = repacker.config.tileCount - 1 := by
    rw [List.length_eraseIdx_of_lt (whole.length ▸ inside), whole.length]
  have rest : Companions repacker.config.tileCount ((unit.eraseIdx tile).reverse ++ []) := by
    rw [List.append_nil]
    refine whole.companions.of_subperm ((List.reverse_perm _).subperm.trans ?_)
    exact (List.eraseIdx_sublist unit tile).subperm
  obtain ⟨next, answers, left, same⟩ := waits.filterAll_few rest (by
    rw [length, List.length_nil]
    omega)
  rw [length] at answers
  rw [List.append_nil] at left
  exact ⟨next, answers, left, same⟩

/-- What waits of a unit without one packet counts as the whole unit when it is dropped, if tile 0
    is there or tile 1 came with the same unit. -/
theorem Waits.abort_lost {first : Packet} {info : TileInfo} {data other : Bytes}
    (waits : repacker.Waits (unit.eraseIdx tile).reverse)
    (whole : OrderedUnit count unit) (several : 2 ≤ count) (member : first ∈ unit)
    (index : first.tileIndex = some 0)
    (split : TileInfo.splitPacket first.data = .ok (info, data))
    (same : tile = 0 → ∀ packet ∈ unit.take 2, ∃ info,
      TileInfo.splitPacket packet.data = .ok (info, other)) :
    repacker.abort = repacker.settled data := by
  -- the packet in front of those that are left counts
  have front {head : Packet} {left : List Packet} {info : TileInfo}
      (rest : unit.eraseIdx tile = head :: left)
      (own : TileInfo.splitPacket head.data = .ok (info, data)) :
      repacker.abort = repacker.settled data := by
    have present : head ∈ unit.eraseIdx tile := rest ▸ List.mem_cons_self
    obtain ⟨lowest, -, index⟩ :=
      whole.companions.inside ((List.eraseIdx_sublist unit tile).subset present)
    refine waits.abort_lowest (List.mem_reverse.2 present) index (fun other waiting => ?_) own
    exact whole.lowest rest index other (rest ▸ List.mem_reverse.1 waiting)
  obtain ⟨head, rest, rfl, lowest, others, length⟩ := whole.first (Nat.le_of_succ_le several)
  obtain rfl : first = head := by
    rcases List.mem_cons.1 member with same | later
    · exact same
    · exact absurd (index ▸ List.mem_map_of_mem later) others
  cases tile with
  | succ tile => exact front List.eraseIdx_cons_succ split
  | zero =>
    cases rest with
    | nil =>
      rw [List.length_nil] at length
      omega
    | cons second left =>
      obtain ⟨_, one⟩ := same rfl first List.mem_cons_self
      obtain ⟨_, two⟩ := same rfl second (List.mem_cons_of_mem first List.mem_cons_self)
      have equal : other = data := congrArg Prod.snd (Except.ok.inj (one.symm.trans split))
      rw [equal] at two
      exact front List.eraseIdx_cons_zero two

/-- One packet of a stream is lost whose packets come in order of their tiles and whose units would
    all be put together. Those in front of the gap are. If the rest of the stream follows as it is,
    the first packet of each unit behind the gap is refused and the others wait, so none of these
    units is put together. If instead the first packet behind the gap is fed twice in a row, its unit
    and all behind it are put together as they would have been without the loss. -/
theorem Ran.lost_tile {start middle : TileRepacker} {front later : List (List Packet)}
    {lost others : List Packet} (ran : Ran config events start) (idle : start.pending = 0)
    (several : 2 ≤ config.tileCount) (inside : tile < config.tileCount)
    (before : start.Delivers config.tileCount front outs middle)
    (behind : middle.Delivers config.tileCount (lost :: later) (out :: others) last)
    (apart : (lost :: later).Pairwise UnitsApart) :
    (start.filterAll (front.flatten ++ lost.eraseIdx tile ++ later.flatten)).1 =
        delivered config.tileCount outs ++ List.replicate (config.tileCount - 1) (.ok none) ++
          missed config.tileCount
            (if tile = 0 then .metadataMismatch 0 .pts else .duplicateTile 0) later.length ∧
      ∀ next more unit, later = next :: more →
        (tile = 0 → ∀ packet ∈ lost.take 2, ∃ info,
          TileInfo.splitPacket packet.data = .ok (info, unit)) →
        start.filterAll (front.flatten ++ lost.eraseIdx tile ++ next.take 1 ++ later.flatten) =
          (delivered config.tileCount outs ++ List.replicate (config.tileCount - 1) (.ok none) ++
            [.error (.raised (if tile = 0 then .metadataMismatch 0 .pts else .duplicateTile 0))] ++
            delivered config.tileCount others, last) := by
  obtain ⟨rfl, waits⟩ := ran.waits
  have none : taken events = [] := List.length_eq_zero_iff.1 (waits.pending.symm.trans idle)
  rw [none] at waits
  obtain ⟨-, empty, same⟩ := before.waits waits rfl
  generalize start.config.tileCount = count at *
  subst same
  cases behind with
  | cons ordered filtered further =>
  obtain ⟨whole, first, member, info, data, index, split, rfl⟩ :=
    empty.delivered_unit ordered filtered
  obtain ⟨units, -, -⟩ := further.waits (empty.cleared rfl rfl rfl) rfl
  obtain ⟨gap, answers, left, kept⟩ := empty.filterAll_lost whole inside
  have config : gap.config = middle.config := (congrArg TileRepacker.config kept :)
  have length : (lost.eraseIdx tile).reverse.length = middle.config.tileCount - 1 := by
    rw [List.length_reverse, List.length_eraseIdx_of_lt (whole.length ▸ inside), whole.length]
  have nonempty : (lost.eraseIdx tile).reverse ≠ [] :=
    List.ne_nil_of_length_pos (by omega)
  obtain ⟨own, between⟩ := List.pairwise_cons.1 apart
  have unlike : ∀ unit ∈ later, UnitsApart (lost.eraseIdx tile).reverse unit :=
    fun unit member one waiting => own unit member one
      ((List.eraseIdx_sublist lost tile).subset (List.mem_reverse.1 waiting))
  have refused := refusal_of_lost whole (Nat.le_of_succ_le several) tile
  have gone := filterAll_append before.filterAll (goesOn_delivered _ outs) answers
  have goesOn := List.forall_mem_append.2 ⟨goesOn_delivered middle.config.tileCount outs,
    goesOn_replicate (middle.config.tileCount - 1)⟩
  constructor
  · have further := left.filterAll_missed several (config ▸ rfl) nonempty units
      (List.pairwise_cons.2 ⟨unlike, between⟩)
    rw [refused] at further
    rw [filterAll_append gone goesOn (Prod.eta _).symm, further]
  · rintro next more unit rfl equal
    obtain ⟨head, rest, rfl, zero, -⟩ :=
      (units next List.mem_cons_self).first (Nat.le_of_succ_le several)
    have bounced := left.filter_first nonempty zero fun other waiting =>
      unlike _ List.mem_cons_self other waiting head List.mem_cons_self
    rw [refused, left.abort_lost whole several member index split equal,
      settled_congr kept] at bounced
    have single : gap.filterAll [head] = _ := filterAll_cons bounced (.raised _) rfl
    have twice := filterAll_append gone goesOn single
    rw [List.take_succ_cons, List.take_zero]
    refine filterAll_append twice (List.forall_mem_append.2 ⟨goesOn, ?_⟩) further.filterAll
    exact List.forall_mem_singleton.2 (.raised _)

/-! ### Three key frames -/

/-- The unit of a key frame of two tiles. -/
def keyUnit : Bytes :=
  [0x12, 0x00, 0x0A, 0x06, 0x18, 0x19, 0xBF, 0xFF, 0x00, 0x02, 0x1A, 0x02, 0x18, 0x40, 0x22, 0x05,
    0x00, 0x01, 0xAA, 0xAB, 0xBB]

/-- The packet of the key frame at some time. -/
def keyPacket (time : Int) : Packet :=
  ⟨keyUnit, some time, none, 1, 0, none⟩

/-- The packets of the two tiles of the key frame at some time. -/
def keyTiles (time : Int) : List Packet :=
  (TileSplitter.filter ⟨.default, .empty, none⟩ (keyPacket time)).1

/-- A repacker for two tiles. -/
def twoTiles (decoder : DecoderState) : TileRepacker :=
  ⟨⟨2, 64⟩, [none, none], 0, decoder⟩

/-- The repacker behind key frames. -/
def behindKeyUnit : TileRepacker :=
  twoTiles (DecoderState.empty.behind keyUnit)

theorem delivers_keyTiles : (twoTiles .empty).Delivers 2 [keyTiles 1, keyTiles 2, keyTiles 3]
    [keyPacket 1, keyPacket 2, keyPacket 3] behindKeyUnit := by
  have one : (twoTiles .empty).filterAll (keyTiles 1) =
      ([.ok none, .ok (some (keyPacket 1))], behindKeyUnit) := by
    decide +kernel
  have two : behindKeyUnit.filterAll (keyTiles 2) =
      ([.ok none, .ok (some (keyPacket 2))], behindKeyUnit) := by
    decide +kernel
  have three : behindKeyUnit.filterAll (keyTiles 3) =
      ([.ok none, .ok (some (keyPacket 3))], behindKeyUnit) := by
    decide +kernel
  refine .cons ?_ one (.cons ?_ two (.cons ?_ three .nil)) <;> decide +kernel

/-- The first of six packets is lost. None of the three frames is put together if the other five
    follow as they are, and the last two are if the packet behind the gap is fed twice. -/
theorem Ran.lost_tile_three_frames :
    Ran ⟨2, 64⟩ [] (twoTiles .empty) ∧
      (twoTiles .empty).Delivers 2 [keyTiles 1, keyTiles 2, keyTiles 3]
        [keyPacket 1, keyPacket 2, keyPacket 3] behindKeyUnit ∧
      [keyTiles 1, keyTiles 2, keyTiles 3].Pairwise UnitsApart ∧
      ((twoTiles .empty).filterAll
          ((keyTiles 1).eraseIdx 0 ++ [keyTiles 2, keyTiles 3].flatten)).1 =
        [.ok none, .error (.raised (.metadataMismatch 0 .pts)), .ok none,
          .error (.raised (.metadataMismatch 0 .pts)), .ok none] ∧
      (twoTiles .empty).filterAll
          ((keyTiles 1).eraseIdx 0 ++ (keyTiles 2).take 1 ++ [keyTiles 2, keyTiles 3].flatten) =
        ([.ok none, .error (.raised (.metadataMismatch 0 .pts)), .ok none,
          .ok (some (keyPacket 2)), .ok none, .ok (some (keyPacket 3))], behindKeyUnit) := by
  have apart : [keyTiles 1, keyTiles 2, keyTiles 3].Pairwise UnitsApart := by decide +kernel
  have units : ∀ packet ∈ (keyTiles 1).take 2,
      ∃ info, TileInfo.splitPacket packet.data = .ok (info, keyUnit) := by
    have own : ∀ packet ∈ (keyTiles 1).take 2,
        (TileInfo.splitPacket packet.data).toOption.map Prod.snd = some keyUnit := by
      decide +kernel
    intro packet member
    have unit := own packet member
    cases read : TileInfo.splitPacket packet.data with
    | error cause => simp [read, Except.toOption] at unit
    | ok taken =>
      simp only [read, Except.toOption, Option.map_some, Option.some.injEq] at unit
      exact ⟨taken.1, by rw [← unit]⟩
  have opened : Ran ⟨2, 64⟩ [] (twoTiles .empty) := .opened rfl
  obtain ⟨gap, again⟩ := opened.lost_tile rfl (Nat.le_refl 2) Nat.zero_lt_two .nil
    delivers_keyTiles apart
  exact ⟨opened, delivers_keyTiles, apart, gap, again _ _ keyUnit rfl fun _ => units⟩

/-- The second of six packets is lost, and the third frame is not put together. -/
theorem not_resynchronised : ¬∀ (config : RepackConfig) (events : List Event)
    (start middle last : TileRepacker) (front later : List (List Packet))
    (lost outs others : List Packet) (out : Packet) (tile : Nat),
    Ran config events start → start.pending = 0 → 2 ≤ config.tileCount →
    tile < config.tileCount → start.Delivers config.tileCount front outs middle →
    middle.Delivers config.tileCount (lost :: later) (out :: others) last →
    (front ++ lost :: later).Pairwise UnitsApart →
    ∀ unit ∈ others.drop 1, .ok (some unit) ∈
      (start.filterAll (front.flatten ++ lost.eraseIdx tile ++ later.flatten)).1 := by
  intro claim
  have third := claim ⟨2, 64⟩ [] _ _ _ [] _ _ [] _ _ 1 (.opened rfl) rfl (Nat.le_refl 2)
    Nat.one_lt_two .nil delivers_keyTiles (by decide +kernel) (keyPacket 3) List.mem_cons_self
  revert third
  decide +kernel

end TileRepacker
end Av1Tiling
