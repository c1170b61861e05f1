import Av1Tiling.Proofs.Field
import Av1Tiling.Proofs.Tile.Grid
import Av1Tiling.Tile.Layout

/-!
# Where tiles start

The starts of the tiles of one axis, and the end of the last one, cut `count` superblocks into tiles
of at most `limit` of them (`Cut`). Uniform starts cut the axis into tiles of one size, and no other
logarithm yields the same. Explicit starts are decoded and written as the sizes of their tiles.
-/

namespace Av1Tiling

/-- The starts of tiles up to the end `count`, none of more than `limit` superblocks. -/
def Cut (count limit : Nat) : List Nat → Prop
  | [] => False
  | [last] => last = count
  | a :: b :: rest => a < b ∧ b ≤ a + limit ∧ Cut count limit (b :: rest)

namespace Cut

variable {count limit : Nat}

theorem head_le {a : Nat} {rest : List Nat} (cut : Cut count limit (a :: rest)) : a ≤ count := by
  induction rest generalizing a with
  | nil => exact Nat.le_of_eq cut
  | cons b rest ih => exact Nat.le_of_lt (Nat.lt_of_lt_of_le cut.1 (ih cut.2.2))

theorem mono {wider : Nat} {starts : List Nat} (cut : Cut count limit starts)
    (le : limit ≤ wider) : Cut count wider starts := by
  induction starts with
  | nil => exact cut
  | cons a rest ih =>
    cases rest with
    | nil => exact cut
    | cons b rest => exact ⟨cut.1, Nat.le_trans cut.2.1 (Nat.add_le_add_left le a), ih cut.2.2⟩

/-- No tile has more superblocks than the limit. -/
theorem next_le {starts : List Nat} {index a b : Nat} (cut : Cut count limit starts)
    (first : starts[index]? = some a) (second : starts[index + 1]? = some b) : b ≤ a + limit := by
  induction index generalizing starts with
  | zero =>
    match starts, first, second with
    | _ :: _ :: _, rfl, rfl => exact cut.2.1
  | succ index ih =>
    match starts, first, second with
    | _ :: _ :: _, first, second => exact ih cut.2.2 first second

end Cut

theorem largest_cons (size : Nat) (sizes : List Nat) :
    largest (size :: sizes) = max size (largest sizes) := by
  have general : ∀ (sizes : List Nat) (first : Nat),
      sizes.foldl max first = max first (largest sizes) := by
    intro sizes
    induction sizes with
    | nil => intro first; simp [largest]
    | cons next rest ih =>
      intro first
      rw [largest, List.foldl_cons, List.foldl_cons, ih, ih, Nat.zero_max, Nat.max_assoc]
  rw [largest, List.foldl_cons, Nat.zero_max, general]

/-- Starts that are in order cut an axis into tiles of at most the size of the largest one. -/
theorem cut_append_iff {count limit : Nat} {starts : List Nat} :
    Cut count limit (starts ++ [count]) ↔
      TileLayout.increasing starts = true ∧ (∀ start ∈ starts, start < count) ∧
        largest (tileSizes (starts ++ [count])) ≤ limit := by
  induction starts with
  | nil => simp [Cut, TileLayout.increasing, tileSizes, largest]
  | cons a rest ih =>
    cases rest with
    | nil =>
      simp [Cut, TileLayout.increasing, tileSizes, largest]
      omega
    | cons b rest =>
      rw [List.cons_append, List.cons_append, Cut, ← List.cons_append, ih, TileLayout.increasing,
        List.cons_append, tileSizes, largest_cons]
      simp only [Bool.and_eq_true, decide_eq_true_eq, List.forall_mem_cons]
      constructor
      · rintro ⟨lt, le, increasing, ⟨below, inside⟩, sizes⟩
        exact ⟨⟨lt, increasing⟩, ⟨by omega, below, inside⟩, by omega⟩
      · rintro ⟨⟨lt, increasing⟩, ⟨-, below, inside⟩, sizes⟩
        exact ⟨lt, by omega, increasing, ⟨below, inside⟩, by omega⟩

/-! ## Uniform starts -/

/-- The size of all tiles but perhaps the last, when `2 ^ log2` of them share `count`
    superblocks. -/
def uniformSize (count log2 : Nat) : Nat :=
  max ((count + 2 ^ log2 - 1) / 2 ^ log2) 1

/-- Number of tiles of that size, the last of which may be smaller. -/
def uniformTiles (count log2 : Nat) : Nat :=
  (count + uniformSize count log2 - 1) / uniformSize count log2

theorem uniformStarts_eq (count log2 : Nat) :
    uniformStarts count log2 =
      (List.range (uniformTiles count log2)).map (· * uniformSize count log2) ++ [count] := rfl

theorem length_uniformStarts (count log2 : Nat) :
    (uniformStarts count log2).length = uniformTiles count log2 + 1 := by
  simp [uniformStarts_eq]

theorem uniformSize_pos (count log2 : Nat) : 0 < uniformSize count log2 :=
  Nat.le_max_right ..

theorem uniformSize_le_iff {size : Nat} (positive : 1 ≤ size) (count log2 : Nat) :
    uniformSize count log2 ≤ size ↔ count ≤ 2 ^ log2 * size := by
  rw [uniformSize, Nat.max_le, ceilDiv_le_iff (Nat.two_pow_pos log2)]
  exact and_iff_left positive

/-- There are at most as many tiles as the logarithm says. -/
theorem uniformTiles_le (count log2 : Nat) : uniformTiles count log2 ≤ 2 ^ log2 := by
  rw [uniformTiles, ceilDiv_le_iff (uniformSize_pos ..), Nat.mul_comm]
  exact (uniformSize_le_iff (uniformSize_pos ..) count log2).1 (Nat.le_refl _)

/-- Tiles of one size cut an axis, if the last one starts in front of the end. -/
theorem cut_multiples {count size tiles : Nat} (start : Nat) (last : start + tiles * size < count)
    (reached : count ≤ start + (tiles + 1) * size) :
    Cut count size ((List.range (tiles + 1)).map (start + · * size) ++ [count]) := by
  induction tiles generalizing start with
  | zero => simp [Cut]; omega
  | succ tiles ih =>
    have onward := ih (start + size) (by rw [Nat.add_mul] at last; omega)
      (by rw [Nat.add_mul] at reached; omega)
    have shift : ∀ i, start + (i + 1) * size = start + size + i * size := by
      intro i
      rw [Nat.add_mul]
      omega
    rw [List.range_succ_eq_map, List.map_cons, List.map_map]
    simp only [Function.comp_def, Nat.succ_eq_add_one, shift]
    rw [List.range_succ_eq_map, List.map_cons] at onward ⊢
    simp only [List.cons_append, Cut, Nat.zero_mul, Nat.add_zero] at onward ⊢
    refine ⟨?_, Nat.le_refl _, onward⟩
    rw [Nat.add_mul] at reached
    omega

theorem uniformTiles_pos {count : Nat} (positive : 1 ≤ count) (log2 : Nat) :
    1 ≤ uniformTiles count log2 := by
  have size := uniformSize_pos count log2
  exact Nat.div_pos (by omega) size

/-- The last of the tiles of uniform size starts in front of the end, and reaches it. -/
theorem uniformTiles_bounds {count : Nat} (positive : 1 ≤ count) (log2 : Nat) :
    ∃ tiles, uniformTiles count log2 = tiles + 1 ∧ tiles * uniformSize count log2 < count ∧
      count ≤ (tiles + 1) * uniformSize count log2 := by
  have size := uniformSize_pos count log2
  have some := uniformTiles_pos positive log2
  refine ⟨uniformTiles count log2 - 1, by omega, ?_, ?_⟩
  · rw [Nat.mul_comm, ← Nat.not_le, ← ceilDiv_le_iff size]
    exact Nat.not_le_of_lt (Nat.sub_one_lt_of_lt some)
  · rw [Nat.mul_comm, ← ceilDiv_le_iff size, Nat.sub_add_cancel some]
    exact Nat.le_refl _

/-- Uniform starts cut the axis. -/
theorem uniformStarts_cut {count : Nat} (positive : 1 ≤ count) (log2 : Nat) :
    (uniformStarts count log2).head? = some 0 ∧
      Cut count (uniformSize count log2) (uniformStarts count log2) := by
  obtain ⟨tiles, total, last, reached⟩ := uniformTiles_bounds positive log2
  rw [uniformStarts_eq, total]
  refine ⟨by rw [List.range_succ_eq_map]; simp, ?_⟩
  simpa using cut_multiples 0 (by omega) (by omega)

/-- The second of uniform starts is the size of the tiles. -/
theorem uniformStarts_second {count : Nat} (positive : 1 ≤ count) (log2 : Nat) :
    (uniformStarts count log2)[1]? = some (uniformSize count log2) := by
  obtain ⟨tiles, total, last, reached⟩ := uniformTiles_bounds positive log2
  have size : uniformSize count log2 ≤ count := by
    rw [uniformSize_le_iff positive]
    exact Nat.le_mul_of_pos_left count (Nat.two_pow_pos log2)
  rw [uniformStarts_eq, total]
  cases tiles with
  | zero => simp; omega
  | succ tiles => simp

/-- Twice as many tiles are smaller, as long as the tiles are not single superblocks already. -/
theorem uniformSize_lt {count a b : Nat} (lt : a < b) (some : 2 ^ a < count) :
    uniformSize count b < uniformSize count a := by
  have size : 2 ≤ uniformSize count a := by
    rw [← Nat.not_lt, Nat.lt_succ_iff, uniformSize_le_iff (Nat.le_refl _)]
    omega
  have reached := (uniformSize_le_iff (uniformSize_pos ..) count a).1 (Nat.le_refl _)
  have double : 2 ^ a * 2 ≤ 2 ^ b := by
    rw [← Nat.pow_succ]
    exact Nat.pow_le_pow_right (by decide) lt
  rw [← Nat.le_sub_one_iff_lt (by omega), uniformSize_le_iff (by omega)]
  calc count
      ≤ 2 ^ a * uniformSize count a := reached
    _ ≤ 2 ^ a * (2 * (uniformSize count a - 1)) := Nat.mul_le_mul_left _ (by omega)
    _ = 2 ^ a * 2 * (uniformSize count a - 1) := (Nat.mul_assoc ..).symm
    _ ≤ 2 ^ b * (uniformSize count a - 1) := Nat.mul_le_mul_right _ double

/-- Up to the greatest logarithm of an axis, uniform starts tell it. -/
theorem uniformStarts_injective {count limit a b : Nat} (positive : 1 ≤ count)
    (ha : a ≤ tileLog2 1 (min count limit)) (hb : b ≤ tileLog2 1 (min count limit))
    (same : uniformStarts count a = uniformStarts count b) : a = b := by
  have sizes : uniformSize count a = uniformSize count b := by
    have second := uniformStarts_second positive a
    rw [same, uniformStarts_second positive b] at second
    exact (Option.some.inj second).symm
  rcases Nat.lt_trichotomy a b with lt | rfl | lt
  · have := uniformSize_lt lt (SuperblockGrid.pow_lt_of_lt_tileLog2 (Nat.lt_of_lt_of_le lt hb))
    omega
  · rfl
  · have := uniformSize_lt lt (SuperblockGrid.pow_lt_of_lt_tileLog2 (Nat.lt_of_lt_of_le lt ha))
    omega

/-! ## Explicit starts -/

namespace TileLayout

/-- The sizes of tiles, of `count` superblocks at most `limit`, as their codes. -/
def startsCode (count limit : Nat) : List Nat → Bits
  | a :: b :: rest =>
    NonSymmetric.code (min (count - a) limit) (b - a - 1) ++ startsCode count limit (b :: rest)
  | _ => []

theorem floorLog2_le_of_lt {value : Nat} (narrow : value < 2 ^ 64) : floorLog2 value ≤ 64 := by
  rcases Nat.eq_zero_or_pos value with rfl | positive
  · decide
  · exact Nat.le_of_lt ((Nat.log2_lt (by omega)).2 narrow)

theorem sizeField_decodes {count : Nat} (narrow : count < 2 ^ 64) (name : String)
    (limit start : Nat) :
    Read.Decodes (sizeField name count limit start).read
      (fun value => value < min (count - start) limit)
      (NonSymmetric.code (min (count - start) limit)) := by
  have short : floorLog2 (min (count - start) limit) ≤ 64 := floorLog2_le_of_lt (by omega)
  have decodes := Field.read_decodes (sizeField name count limit start)
    (NonSymmetric.read_decodes (min (count - start) limit))
  refine decodes.congr (fun value => ?_) fun _ _ => rfl
  simp only [sizeField, Field.nonSymmetric]
  omega

/-- Only the end itself is left to cut behind the last tile. -/
theorem cut_end_iff {count limit length : Nat} {starts : List Nat} (positive : 1 ≤ length) :
    (starts.head? = some count ∧ Cut count limit starts ∧ starts.length ≤ length) ↔
      starts = [count] := by
  constructor
  · rintro ⟨head, cut, -⟩
    match starts, head, cut with
    | [_], rfl, _ => rfl
    | _ :: _ :: _, rfl, cut =>
      have := cut.1
      have := Cut.head_le cut.2.2
      omega
  · rintro rfl
    exact ⟨rfl, rfl, positive⟩

theorem end_decodes {count length : Nat} (limit : Nat) (positive : 1 ≤ length) :
    Read.Decodes (pure [count])
      (fun starts => starts.head? = some count ∧ Cut count limit starts ∧ starts.length ≤ length)
      (startsCode count limit) := by
  refine (Read.Decodes.pure [count]).congr (fun starts => (cut_end_iff positive).symm) ?_
  intro starts legal
  rw [(cut_end_iff positive).1 legal]
  rfl

/-- Reading explicit starts decodes the cuts of what is left of an axis. -/
theorem readStarts_decodes {count : Nat} (narrow : count < 2 ^ 64) (name : String) (limit : Nat)
    {left start : Nat} (inside : start ≤ count) :
    Read.Decodes (readStarts name count limit left start)
      (fun starts => starts.head? = some start ∧ Cut count limit starts ∧
        starts.length ≤ left + 1)
      (startsCode count limit) := by
  induction left generalizing start with
  | zero =>
    rw [readStarts]
    rcases Nat.eq_or_lt_of_le inside with rfl | more
    · rw [if_pos (Nat.le_refl _)]
      exact end_decodes limit (Nat.le_refl 1)
    · rw [if_neg (by omega)]
      constructor
      · rintro starts pos ⟨head, cut, short⟩
        match starts, head, cut, short with
        | [_], rfl, cut, _ => exact absurd cut (Nat.ne_of_lt more)
      · intro reader starts behind run
        cases run
  | succ left ih =>
    rw [readStarts]
    rcases Nat.eq_or_lt_of_le inside with rfl | more
    · rw [if_pos (Nat.le_refl _)]
      exact end_decodes limit (Nat.le_add_left ..)
    · rw [if_neg (by omega)]
      have field := sizeField_decodes narrow name limit start
      constructor
      · rintro starts pos ⟨head, cut, short⟩
        match starts, head, cut, short with
        | [_], rfl, cut, _ => exact absurd cut (Nat.ne_of_lt more)
        | _ :: b :: rest, rfl, ⟨lt, le, cut⟩, short =>
          have below := Cut.head_le cut
          have size : b - start - 1 < min (count - start) limit := by omega
          refine (field.yields _ pos size).bind ?_
          rw [← List.append_nil (startsCode _ _ _)]
          have next : start + (b - start - 1 + 1) = b := by omega
          refine Read.Yields.bind ?_ (.pure _ _)
          rw [next]
          exact (ih below).yields _ _ ⟨rfl, cut, Nat.le_of_succ_le_succ short⟩
      · intro reader starts behind run
        obtain ⟨size, between, first, second⟩ := Step.bind_eq_ok.1 run
        obtain ⟨fits, advances⟩ := field.sound first
        obtain ⟨rest, last, third, fourth⟩ := Step.bind_eq_ok.1 second
        obtain ⟨⟨head, cut, short⟩, onward⟩ := (ih (by omega)).sound third
        cases fourth
        match rest, head, cut with
        | _ :: rest, rfl, cut =>
          refine ⟨⟨rfl, ⟨by omega, by omega, cut⟩, Nat.succ_le_succ short⟩, ?_⟩
          have same : start + (size + 1) - start - 1 = size := by omega
          rw [startsCode, same]
          exact advances.trans onward

/-- What is written for the cuts of what is left of an axis. -/
theorem writeStarts_appends {count : Nat} (narrow : count < 2 ^ 64) (name : String) (limit : Nat)
    {left start : Nat} {starts : List Nat} (head : starts.head? = some start)
    (cut : Cut count limit starts) (short : starts.length ≤ left + 1) :
    Write.Appends (writeStarts name count limit left start (tileSizes starts))
      (startsCode count limit starts) starts := by
  induction left generalizing start starts with
  | zero =>
    match starts, head, cut, short with
    | [_], rfl, cut, _ =>
      rw [writeStarts, if_pos (Nat.le_of_eq cut.symm)]
      exact .pure _
  | succ left ih =>
    rw [writeStarts]
    match starts, head, cut, short with
    | [_], rfl, cut, _ =>
      rw [if_pos (Nat.le_of_eq cut.symm)]
      exact .pure _
    | _ :: b :: rest, rfl, ⟨lt, le, cut⟩, short =>
      have below := Cut.head_le cut
      have onward := ih rfl cut (Nat.le_of_succ_le_succ short)
      have size : max ((tileSizes (start :: b :: rest)).headD 1) 1 = b - start := by
        simp only [tileSizes, List.headD_cons]
        omega
      have next : start + (b - start) = b := by omega
      have field : Write.Appends ((sizeField name count limit start).write (b - start - 1))
          (NonSymmetric.code (min (count - start) limit) (b - start - 1)) () := by
        refine Field.write_appends ⟨Nat.zero_le _, ?_⟩ ?_
        · simp only [sizeField, Field.nonSymmetric]
          omega
        · exact NonSymmetric.write_appends (by omega) (floorLog2_le_of_lt (by omega))
      rw [if_neg (by omega)]
      simp only [size, next]
      refine field.bind ?_
      rw [← List.append_nil (startsCode _ _ _)]
      exact onward.bind (.pure _)

end TileLayout

end Av1Tiling
