import Av1Tiling.Code.Uvlc
import Av1Tiling.Proofs.Bits.Numbers
import Av1Tiling.Proofs.Bits.Safety

/-!
# Reading at another place

Most steps of reading do not look at where they are: they read the same value from the same bits at
any place (`Movable`). So where an element in front of them changes its length, what follows it is
still read as it was.
-/

namespace Av1Tiling

namespace Read

variable {α β : Type}

/-- Where `step` succeeds, it has used some bits, and it reads the same from these bits at any
    place. -/
def Movable (step : Read α) : Prop :=
  ∀ reader value behind, step reader = .ok value behind →
    ∃ used, reader.Advances used behind ∧ ∀ pos, step.Yields pos used value

theorem Decodes.movable {step : Read α} {Legal : α → Prop} {code : α → Bits}
    (decodes : Decodes step Legal code) : Movable step := by
  intro reader value behind run
  obtain ⟨legal, advances⟩ := decodes.sound run
  exact ⟨code value, advances, fun pos => decodes.yields value pos legal⟩

namespace Movable

variable {step other : Read α}

protected theorem pure (value : α) : Movable (pure value) :=
  (Decodes.pure value).movable

protected theorem bind {next : α → Read β} (first : Movable step)
    (second : ∀ value, Movable (next value)) : Movable (step >>= next) := by
  intro reader result behind run
  obtain ⟨value, between, run₁, run₂⟩ := Step.bind_eq_ok.1 run
  obtain ⟨used, advances₁, yields₁⟩ := first _ _ _ run₁
  obtain ⟨more, advances₂, yields₂⟩ := second value _ _ _ run₂
  exact ⟨used ++ more, advances₁.trans advances₂, fun pos => (yields₁ pos).bind (yields₂ _)⟩

protected theorem map (f : α → β) (movable : Movable step) : Movable (f <$> step) := by
  intro reader result behind run
  obtain ⟨value, found, rfl⟩ := Step.map_eq_ok.1 run
  obtain ⟨used, advances, yields⟩ := movable _ _ _ found
  exact ⟨used, advances, fun pos => (yields pos).map f⟩

protected theorem ite {p : Prop} [Decidable p] (first : Movable step) (second : Movable other) :
    Movable (if p then step else other) := by
  split
  · exact first
  · exact second

/-- A computation reads nothing. -/
protected theorem lift (result : Except StreamError α) : Movable (liftM result : Read α) :=
  (Decodes.lift result).movable

end Movable

/-! ## Numbers -/

theorem bit_movable : Movable bit := bit_decodes.movable

theorem bits_movable (count : Nat) : Movable (bits count) := (bits_decodes count).movable

theorem bitIf_movable (present : Bool) : Movable (bitIf present) :=
  .ite bit_movable (.pure false)

/-- Bytes enough are taken from their bits, whatever follows them. -/
theorem takeBytes_append {count : Nat} {rest : Bits}
    (enough : count ≤ (takeBytes count rest).1.length) :
    ∃ used, rest = used ++ (takeBytes count rest).2 ∧
      used.length = 8 * (takeBytes count rest).1.length ∧
      ∀ more, takeBytes count (used ++ more) = ((takeBytes count rest).1, more) := by
  fun_induction takeBytes count rest with
  | case1 count b0 b1 b2 b3 b4 b5 b6 b7 rest bytes left same ih =>
    rw [same] at ih
    obtain ⟨used, split, length, others⟩ := ih (Nat.le_of_succ_le_succ enough)
    refine ⟨b0 :: b1 :: b2 :: b3 :: b4 :: b5 :: b6 :: b7 :: used, ?_, ?_, fun more => ?_⟩
    · simp only [split, List.cons_append]
    · simp only [List.length_cons, length]
      omega
    · simp only [List.cons_append, takeBytes, others]
  | case2 count rest =>
    obtain rfl : count = 0 := Nat.le_zero.1 enough
    exact ⟨[], rfl, rfl, fun _ => rfl⟩

theorem word_movable : Movable word := by
  intro reader value behind run
  obtain ⟨found, between, first, second⟩ := Step.bind_eq_ok.1 run
  cases first
  by_cases short : (takeBytes 4 reader.rest).1.length < 4
  · rw [if_pos short] at second
    cases second
  · simp only [if_neg short] at second
    cases second
    obtain ⟨used, split, length, others⟩ := takeBytes_append (Nat.le_of_not_lt short)
    refine ⟨used, ⟨split, by rw [length]⟩, fun pos more => ?_⟩
    have again : bytes 4 ⟨pos, used ++ more⟩ =
        .ok (takeBytes 4 reader.rest).1 ⟨pos + used.length, more⟩ := by
      simp only [bytes, others, if_neg short, length]
    rw [word, Step.bind_of_ok again, if_neg short]
    rfl

end Read

/-! ## Variable length numbers -/

namespace Uvlc

theorem length_takeWhile_zeros (zeros : Nat) (rest : Bits) :
    ((List.replicate zeros false ++ true :: rest).takeWhile (!·)).length = zeros := by
  induction zeros with
  | zero => rfl
  | succ zeros ih => exact congrArg (· + 1) ih

/-- A one that is not the first bit has only zeros in front. -/
theorem eq_zeros_or_first (bits : Bits) :
    (bits.takeWhile (!·)).length = bits.length ∨
      ∃ zeros rest, bits = List.replicate zeros false ++ true :: rest := by
  induction bits with
  | nil => exact .inl rfl
  | cons first bits ih =>
    cases first with
    | true => exact .inr ⟨0, bits, rfl⟩
    | false =>
      rcases ih with all | ⟨zeros, rest, rfl⟩
      · exact .inl (congrArg (· + 1) all)
      · exact .inr ⟨zeros + 1, rest, rfl⟩

theorem readZeros_yields (zeros pos : Nat) :
    readZeros.Yields pos (List.replicate zeros false ++ [true]) zeros := by
  intro rest
  have length : (List.replicate zeros false).length + 1 = zeros + 1 := by
    rw [List.length_replicate]
  rw [List.append_assoc, List.singleton_append, readZeros]
  simp only [length_takeWhile_zeros, List.length_append, List.length_cons,
    List.length_replicate]
  rw [if_neg (by omega), ← length, List.drop_length_add_append]
  rfl

/-- A row of zeros is counted up to the one that ends it. -/
theorem readZeros_decodes : Read.Decodes readZeros (fun _ => True) fun zeros =>
    List.replicate zeros false ++ [true] := by
  constructor
  · intro zeros pos _
    exact readZeros_yields zeros pos
  · intro reader found behind run
    rcases eq_zeros_or_first reader.rest with all | ⟨zeros, rest, split⟩
    · rw [readZeros, if_pos all] at run
      cases run
    · have own : reader.rest = List.replicate zeros false ++ [true] ++ rest := by
        rw [split, List.append_assoc, List.singleton_append]
      have same := readZeros_yields zeros reader.pos rest
      rw [← own, run] at same
      cases same
      exact ⟨trivial, own, rfl⟩

theorem readZeros_movable : Read.Movable readZeros :=
  readZeros_decodes.movable

theorem read_movable (min max : Nat) : Read.Movable (read min max) := by
  have last (value : Nat) : Read.Movable (do check value min max; return value) :=
    (Read.Movable.lift _).bind fun _ => .pure _
  exact readZeros_movable.bind fun zeros => .ite (last _)
    (((Read.bits_movable zeros).map _).bind last)

end Uvlc

end Av1Tiling
