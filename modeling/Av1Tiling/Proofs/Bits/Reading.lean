import Av1Tiling.Bits.Span
import Av1Tiling.Proofs.Bits.Octets
import Av1Tiling.Proofs.Steps

/-!
# What a read depends on

A read that succeeds depends on where it starts and on the bits that it uses, and on nothing behind
them (`Exact`). So it succeeds in the same way wherever the same bits stand at the same place
(`Yields`). A code is given by a relation between bits and values, and a read of it is the same
relation (`Decodes`): it yields a value exactly from the bits that stand for the value.
-/

namespace Av1Tiling

/-- Between the two positions of one stream lie exactly the bits `used`. -/
structure BitReader.Advances (front : BitReader) (used : Bits) (behind : BitReader) : Prop where
  rest : front.rest = used ++ behind.rest
  pos : behind.pos = front.pos + used.length

namespace BitReader.Advances

variable {a b c : BitReader} {u v : Bits}

protected theorem refl (reader : BitReader) : reader.Advances [] reader :=
  ⟨rfl, rfl⟩

protected theorem trans (first : a.Advances u b) (second : b.Advances v c) :
    a.Advances (u ++ v) c := by
  refine ⟨?_, ?_⟩
  · rw [first.rest, second.rest, List.append_assoc]
  · rw [second.pos, first.pos, List.length_append, Nat.add_assoc]

/-- No bit is lost between the two positions. -/
theorem total (advances : a.Advances u b) :
    b.pos + b.rest.length = a.pos + a.rest.length := by
  rw [advances.pos, advances.rest, List.length_append, Nat.add_assoc]

/-- The stream ends at the same place. -/
theorem atEnd_eq (advances : a.Advances u b) : b.atEnd = a.atEnd := by
  rw [atEnd, atEnd, advances.total]

end BitReader.Advances

namespace Read

variable {α β : Type}

/-- At bit `pos`, `step` yields `value` from exactly the bits `used`, whatever follows them. -/
def Yields (step : Read α) (pos : Nat) (used : Bits) (value : α) : Prop :=
  ∀ rest, step ⟨pos, used ++ rest⟩ = .ok value ⟨pos + used.length, rest⟩

/-- Where `step` succeeds, it has used some bits and has looked at nothing behind them. -/
def Exact (step : Read α) : Prop :=
  ∀ reader value behind, step reader = .ok value behind →
    ∃ used, reader.Advances used behind ∧ step.Yields reader.pos used value

namespace Yields

variable {step : Read α} {pos : Nat} {used : Bits} {value : α}

protected theorem pure (value : α) (pos : Nat) : Yields (pure value) pos [] value :=
  fun _ => rfl

protected theorem bind {next : α → Read β} {more : Bits} {result : β}
    (first : Yields step pos used value)
    (second : Yields (next value) (pos + used.length) more result) :
    Yields (step >>= next) pos (used ++ more) result := by
  intro rest
  rw [List.append_assoc, Step.bind_of_ok (first (more ++ rest)), second rest, List.length_append,
    Nat.add_assoc]

protected theorem map (f : α → β) (yields : Yields step pos used value) :
    Yields (f <$> step) pos used (f value) := by
  intro rest
  exact Step.map_eq_ok.2 ⟨value, yields rest, rfl⟩

/-- To go on with what was read uses no more bits. -/
theorem bind_pure (f : α → β) (yields : Yields step pos used value) :
    Yields (step >>= fun value => pure (f value)) pos used (f value) := by
  rw [← List.append_nil used]
  exact yields.bind (.pure _ _)

end Yields

namespace Exact

variable {step other : Read α}

protected theorem pure (value : α) : Exact (pure value) := by
  intro reader result behind run
  cases run
  exact ⟨[], .refl reader, .pure value _⟩

protected theorem throw (cause : Failure StreamError) : Exact (throw cause : Read α) := by
  intro reader result behind run
  cases run

protected theorem bind {next : α → Read β} (first : Exact step)
    (second : ∀ value, Exact (next value)) : Exact (step >>= next) := by
  intro reader result behind run
  obtain ⟨value, between, run₁, run₂⟩ := Step.bind_eq_ok.1 run
  obtain ⟨used, advances₁, yields₁⟩ := first _ _ _ run₁
  obtain ⟨more, advances₂, yields₂⟩ := second value _ _ _ run₂
  rw [advances₁.pos] at yields₂
  exact ⟨used ++ more, advances₁.trans advances₂, yields₁.bind yields₂⟩

protected theorem ite {p : Prop} [Decidable p] (first : Exact step) (second : Exact other) :
    Exact (if p then step else other) := by
  split
  · exact first
  · exact second

protected theorem liftFault (result : Except Fault α) : Exact (liftM result : Read α) := by
  cases result with
  | ok value => exact .pure value
  | error cause => exact .throw _

protected theorem pos : Exact pos := by
  intro reader value behind run
  cases run
  exact ⟨[], .refl reader, fun _ => rfl⟩

protected theorem spanned (exact : Exact step) : Exact (spanned step) :=
  Exact.pos.bind fun _ => exact.bind fun _ => Exact.pos.bind fun _ => .pure _

/-- A loop whose turns yield nothing. -/
protected theorem forIn {γ : Type} {turn : γ → PUnit → Read (ForInStep PUnit)} (items : List γ)
    (each : ∀ item, Exact (turn item ⟨⟩)) : Exact (ForIn.forIn items ⟨⟩ turn) := by
  induction items with
  | nil => exact .pure _
  | cons item rest ih =>
    rw [List.forIn_cons]
    refine (each item).bind fun next => ?_
    cases next with
    | done => exact .pure _
    | yield => exact ih

end Exact

namespace Yields

variable {step : Read α} {pos : Nat} {used : Bits} {value : α}

protected theorem pos (pos : Nat) : Yields Read.pos pos [] pos :=
  fun _ => rfl

/-- The value of a spanned read and the bits that it used. -/
protected theorem spanned (yields : Yields step pos used value) :
    Yields (spanned step) pos used (value, ⟨pos, pos + used.length⟩) := by
  intro rest
  exact (Step.bind_of_ok (Yields.pos pos (used ++ rest))).trans (Step.bind_of_ok (yields rest))

end Yields

/-- `step` reads the code that writes the legal values as `code` says: it yields such a value
    exactly from the bits that stand for it. -/
structure Decodes (step : Read α) (Legal : α → Prop) (code : α → Bits) : Prop where
  yields : ∀ value pos, Legal value → step.Yields pos (code value) value
  sound : ∀ {reader value behind}, step reader = .ok value behind →
    Legal value ∧ reader.Advances (code value) behind

namespace Decodes

variable {step : Read α} {Legal : α → Prop} {code : α → Bits}

theorem exact (decodes : Decodes step Legal code) : Exact step := by
  intro reader value behind run
  obtain ⟨legal, advances⟩ := decodes.sound run
  exact ⟨code value, advances, decodes.yields value reader.pos legal⟩

theorem congr {Legal' : α → Prop} {code' : α → Bits} (decodes : Decodes step Legal code)
    (legal : ∀ value, Legal value ↔ Legal' value)
    (same : ∀ value, Legal' value → code value = code' value) : Decodes step Legal' code' := by
  constructor
  · intro value pos isLegal
    rw [← same value isLegal]
    exact decodes.yields value pos ((legal value).2 isLegal)
  · intro reader value behind run
    obtain ⟨isLegal, advances⟩ := decodes.sound run
    have isLegal' := (legal value).1 isLegal
    exact ⟨isLegal', same value isLegal' ▸ advances⟩

protected theorem pure (value : α) : Decodes (pure value) (· = value) fun _ => [] := by
  constructor
  · rintro _ pos rfl
    exact .pure _ pos
  · intro reader found behind run
    cases run
    exact ⟨rfl, .refl _⟩

/-- Two codes in a row, where the whole value tells what the first one stands for. -/
protected theorem bind {next : α → Read β} {Legal' : α → β → Prop} {code' : α → β → Bits}
    (first : Decodes step Legal code)
    (second : ∀ value, Legal value → Decodes (next value) (Legal' value) (code' value))
    (part : β → α)
    (known : ∀ value result, Legal value → Legal' value result → part result = value) :
    Decodes (step >>= next) (fun result => Legal (part result) ∧ Legal' (part result) result)
      fun result => code (part result) ++ code' (part result) result := by
  constructor
  · rintro result pos ⟨legal, legal'⟩
    exact (first.yields _ pos legal).bind ((second _ legal).yields result _ legal')
  · intro reader result behind run
    obtain ⟨value, between, run₁, run₂⟩ := Step.bind_eq_ok.1 run
    obtain ⟨legal, advances⟩ := first.sound run₁
    obtain ⟨legal', onward⟩ := (second value legal).sound run₂
    obtain rfl := known value result legal legal'
    exact ⟨⟨legal, legal'⟩, advances.trans onward⟩

/-- A computation yields what it yields, without any bit. -/
protected theorem lift (result : Except StreamError α) :
    Decodes (liftM result) (fun value => result = .ok value) fun _ => [] := by
  constructor
  · rintro value pos rfl
    exact .pure _ pos
  · intro reader value behind run
    obtain ⟨success, rfl⟩ := Step.lift_eq_ok.1 run
    exact ⟨success, .refl _⟩

/-- A number that is counted from `offset` on. -/
theorem shift {step : Read Nat} {Legal : Nat → Prop} {code : Nat → Bits}
    (decodes : Decodes step Legal code) (offset : Nat) :
    Decodes (step >>= fun value => pure (value + offset))
      (fun value => offset ≤ value ∧ Legal (value - offset)) fun value => code (value - offset) := by
  constructor
  · intro value pos legal
    rw [← List.append_nil (code _)]
    refine (decodes.yields (value - offset) pos legal.2).bind ?_
    rw [Nat.sub_add_cancel legal.1]
    exact .pure value _
  · intro reader value behind run
    obtain ⟨place, between, first, second⟩ := Step.bind_eq_ok.1 run
    cases second
    rw [Nat.add_sub_cancel]
    exact (decodes.sound first).imp_left fun legal => ⟨Nat.le_add_left offset place, legal⟩

protected theorem ite {p : Prop} [Decidable p] {other : Read α} {Legal' : α → Prop}
    {code' : α → Bits} (first : Decodes step Legal code) (second : Decodes other Legal' code') :
    Decodes (if p then step else other) (fun value => if p then Legal value else Legal' value)
      fun value => if p then code value else code' value := by
  split
  · simpa only [if_pos ‹p›] using first
  · simpa only [if_neg ‹¬p›] using second

end Decodes

end Read

end Av1Tiling
