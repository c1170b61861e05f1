import Av1Tiling.Frame.Reading
import Av1Tiling.Proofs.Obu.Reading
import Av1Tiling.Proofs.Sequence.Safety

/-!
# The window of frame identifiers

Identifiers of frames start again at zero. A frame can be told from the one that begins as long as
it is not further back than a distance can say, counted around zero (`FrameIds.Window`). What the
slots lose when a frame begins are just the frames outside of this window, and a reference that
comes with the identifier it should have lies inside of it (`RefSlots.expire_window`).
-/

namespace Av1Tiling

/-! ## Distances around zero -/

/-- Counted back from `current` and around zero, `id` is not further than a distance can say. -/
def FrameIds.Window (ids : FrameIds) (current id : Nat) : Prop :=
  ((current : Int) - id) % 2 ^ ids.idLength ≤ 2 ^ ids.deltaLength

instance FrameIds.instDecidableWindow (ids : FrameIds) (current id : Nat) :
    Decidable (ids.Window current id) :=
  inferInstanceAs (Decidable (_ ≤ _))

namespace FrameIds

variable {ids : FrameIds} {current id : Nat}

/-- No identifier lies between zero and the current one, so nothing is counted around zero. -/
theorem window_of_le (known : current < 2 ^ ids.idLength) (before : id ≤ current) :
    ids.Window current id ↔ current ≤ id + 2 ^ ids.deltaLength := by
  have small : ((current : Int) - id) % 2 ^ ids.idLength = current - id := by
    apply Int.emod_eq_of_lt
    · omega
    · have bound : (current : Int) < 2 ^ ids.idLength := by exact_mod_cast known
      omega
  rw [Window, small]
  have words : ((2 ^ ids.deltaLength : Nat) : Int) = 2 ^ ids.deltaLength := by push_cast; rfl
  omega

/-- A larger identifier is counted around zero. -/
theorem window_of_lt (stored : id < 2 ^ ids.idLength) (behind : current < id) :
    ids.Window current id ↔ 2 ^ ids.idLength + current ≤ id + 2 ^ ids.deltaLength := by
  have around : ((current : Int) - id) % 2 ^ ids.idLength = current - id + 2 ^ ids.idLength := by
    have bound : (id : Int) < 2 ^ ids.idLength := by exact_mod_cast stored
    rw [← Int.add_emod_right]
    apply Int.emod_eq_of_lt
    · omega
    · omega
  rw [Window, around]
  have reach : ((2 ^ ids.deltaLength : Nat) : Int) = 2 ^ ids.deltaLength := by push_cast; rfl
  have range : ((2 ^ ids.idLength : Nat) : Int) = 2 ^ ids.idLength := by push_cast; rfl
  omega

/-- What lies a coded distance back lies in the window. -/
theorem window_of_mod_eq (inRange : ids.InRange) {distance : Nat}
    (short : distance ≤ 2 ^ ids.deltaLength)
    (same : (current + 2 ^ ids.idLength - distance) % 2 ^ ids.idLength = id) :
    ids.Window current id := by
  have reach : 2 ^ ids.deltaLength ≤ 2 ^ ids.idLength :=
    Nat.pow_le_pow_right (by decide) inRange.delta
  have inside : distance ≤ current + 2 ^ ids.idLength := by omega
  have back : ((current : Int) - id) % 2 ^ ids.idLength = distance % 2 ^ ids.idLength := by
    have apart : (current : Int) - (current + 2 ^ ids.idLength - distance : Nat) =
        distance - 2 ^ ids.idLength := by
      rw [Int.ofNat_sub inside]
      push_cast
      omega
    rw [← same]
    push_cast
    rw [Int.sub_emod_emod, apart, Int.sub_emod_right]
  rw [Window, back]
  exact_mod_cast Nat.le_trans (Nat.mod_le ..) short

end FrameIds

/-! ## The slots when a frame begins -/

namespace RefSlots

variable {ids : FrameIds} {current : Nat}

/-- Identifiers are told apart without leaving words. -/
theorem inWindow_eq (inRange : ids.InRange) (known : current < 2 ^ ids.idLength) (id : Nat) :
    inWindow ids current id = .ok (decide (if 2 ^ ids.deltaLength < current then
      current ≤ id + 2 ^ ids.deltaLength ∧ id ≤ current
      else id ≤ current ∨ 2 ^ ids.idLength + current ≤ id + 2 ^ ids.deltaLength)) := by
  have delta := inRange.delta
  have word := inRange.word
  have reach : 2 ^ ids.deltaLength ≤ 2 ^ ids.idLength := Nat.pow_le_pow_right (by decide) delta
  have range : 2 ^ ids.idLength ≤ 2 ^ 30 := Nat.pow_le_pow_right (by decide) (by omega)
  rw [inWindow, Checked.bind_of_ok (Checked.shift_eq_ok (by omega)),
    Checked.bind_of_ok (Checked.shift_eq_ok (by omega))]
  by_cases far : 2 ^ ids.deltaLength < current
  · simp only [if_pos far]
    have front : current - 2 ^ ids.deltaLength ≤ id ↔ current ≤ id + 2 ^ ids.deltaLength := by omega
    simp only [front, ← Bool.decide_and]
    rfl
  · simp only [if_neg far]
    by_cases before : id ≤ current
    · simp only [before, if_true, true_or, decide_true]
      rfl
    · have sum : 2 ^ ids.idLength + current < Checked.wordBound := by
        rw [Checked.wordBound]
        omega
      have front : 2 ^ ids.idLength + current - 2 ^ ids.deltaLength ≤ id ↔
          2 ^ ids.idLength + current ≤ id + 2 ^ ids.deltaLength := by omega
      simp only [before, if_false, false_or]
      rw [Checked.bind_of_ok (Checked.word_eq_ok sum),
        Checked.bind_of_ok (Checked.sub_eq_ok (by omega)), decide_eq_decide.2 front]
      rfl

/-- Among identifiers of their length the window is that of the distances around zero. -/
theorem inWindow_eq_window (inRange : ids.InRange) (known : current < 2 ^ ids.idLength) {id : Nat}
    (stored : id < 2 ^ ids.idLength) :
    inWindow ids current id = .ok (decide (ids.Window current id)) := by
  have reach : 2 ^ ids.deltaLength ≤ 2 ^ ids.idLength :=
    Nat.pow_le_pow_right (by decide) inRange.delta
  rw [inWindow_eq inRange known id]
  apply congrArg
  apply decide_eq_decide.2
  by_cases before : id ≤ current
  · rw [FrameIds.window_of_le known before]
    split <;> omega
  · rw [FrameIds.window_of_lt stored (by omega)]
    split <;> omega

/-- The slots lose the frames outside of the window, and nothing else. -/
theorem expire_eq_ok (inRange : ids.InRange) (known : current < 2 ^ ids.idLength) {slots : RefSlots}
    (stored : ∀ slot ∈ slots, slot.frameId < 2 ^ ids.idLength) :
    expire ids current slots = .ok (slots.map fun slot =>
      { slot with valid := slot.valid && decide (ids.Window current slot.frameId) }) := by
  apply Checked.mapM_vector_of_ok
  intro slot member
  rw [Checked.bind_of_ok (inWindow_eq_window inRange known (stored slot member))]
  rfl

end RefSlots

/-! ## References with identifiers -/

namespace ReadFrame

variable {α : Type} {holds : RefSlots → Prop} {yields : α → Prop}

/-- Reading bits leaves the slots as they are. -/
theorem lift_ensures {step : Read α} {causes : Failure StreamError → Prop}
    {fails : Failure ObuError → Prop}
    (safe : ∀ {start : BitReader}, Step.Ensures start.Reaches causes step yields)
    (carried : ∀ cause, causes cause → fails (cause.map .stream)) :
    Step.Ensures (fun state => holds state.slots) fails (liftM step : ReadFrame α) yields := by
  intro state start
  have known := safe state.reader (.refl _)
  simp only [liftM, monadLift, MonadLift.monadLift]
  cases run : step state.reader with
  | ok value behind =>
    rw [run] at known
    exact ⟨known.1, start⟩
  | error cause behind =>
    rw [run] at known
    exact ⟨carried cause known.1, start⟩

/-- A computation in range reads nothing. -/
theorem liftGives_ensures {fails : Failure ObuError → Prop} {result : Except Fault α}
    (gives : Checked.Gives result yields) :
    Step.Ensures (fun state => holds state.slots) fails (liftM result : ReadFrame α) yields := by
  obtain ⟨value, rfl, known⟩ := gives
  exact .pure known

/-- A slot that holds the frame meant lies in the window. Whether it does is computed without
    leaving words. -/
theorem checkFrameId_ensures {ids : FrameIds} (inRange : ids.InRange) {current : Nat}
    (known : current < 2 ^ ids.idLength) (slots : RefSlots) (reference : Nat) (slot : Fin 8) :
    Step.Ensures (fun state => holds state.slots) (¬ Failure.IsFault ·)
      (checkFrameId ids current slots reference slot)
      fun _ => ids.Window current slots[slot].frameId := by
  have word := inRange.word
  have reach : 2 ^ ids.deltaLength ≤ 2 ^ ids.idLength :=
    Nat.pow_le_pow_right (by decide) inRange.delta
  have range : 2 ^ ids.idLength ≤ 2 ^ 30 := Nat.pow_le_pow_right (by decide) (by omega)
  refine (lift_ensures (Read.bits_safe _) fun _ noFault => ?_).bind fun delta short => ?_
  · rwa [Failure.isFault_map]
  refine (liftGives_ensures (Checked.word_gives ?_)).bind fun distance same => ?_
  · rw [Checked.wordBound]
    omega
  subst same
  refine (liftGives_ensures (Checked.shift_gives (by omega))).bind fun _ same => ?_
  subst same
  refine (liftGives_ensures (Checked.word_gives ?_)).bind fun _ same => ?_
  · rw [Checked.wordBound]
    omega
  subst same
  refine (liftGives_ensures (Checked.sub_gives (by omega))).bind fun _ same => ?_
  subst same
  refine .ite (fun _ => .throw (Failure.not_isFault_raised _)) fun expected => .pure ?_
  exact FrameIds.window_of_mod_eq inRange (by omega) (Decidable.not_not.1 expected)

end ReadFrame

namespace RefSlots

/-- With the identifiers of any sequence, the slots that stay valid when a frame begins are the
    valid ones inside of its window. Nothing else changes in the slots, and nothing leaves its range. A
    reference that passes the check of its identifier lies inside of the window as well. -/
theorem expire_window {header : ObuHeader} {payload : Bytes} {sequence : SequenceHeader}
    {rest : BitReader} (parsed : SequenceHeader.parse header payload = .ok sequence rest)
    {ids : FrameIds} (present : sequence.frameIds = some ids) {current : Nat}
    (known : current < 2 ^ ids.idLength) {slots : RefSlots}
    (stored : ∀ slot ∈ slots, slot.frameId < 2 ^ ids.idLength) :
    (∃ kept, expire ids current slots = .ok kept ∧ ∀ i : Fin 8,
      (kept[i].valid = true ↔ slots[i].valid = true ∧ ids.Window current slots[i].frameId) ∧
        kept[i] = { slots[i] with valid := kept[i].valid }) ∧
      ∀ (reference : Nat) (i : Fin 8) (state : FrameState),
        match ReadFrame.checkReference sequence current slots reference i state with
        | .ok _ _ => ids.Window current slots[i].frameId
        | .error cause _ => ¬ cause.IsFault := by
  have inRange : ids.InRange := (SequenceHeader.parse_inRange parsed).frameIds ids present
  constructor
  · refine ⟨_, expire_eq_ok inRange known stored, fun i => ?_⟩
    simp [Fin.getElem_fin]
  · intro reference i state
    have check : ReadFrame.checkReference sequence current slots reference i =
        ReadFrame.checkFrameId ids current slots reference i := by
      rw [ReadFrame.checkReference, present]
    have ensured := @ReadFrame.checkFrameId_ensures (fun _ => True) ids inRange current known slots
      reference i state trivial
    rw [check]
    cases run : ReadFrame.checkFrameId ids current slots reference i state with
    | ok _ behind =>
      rw [run] at ensured
      exact ensured.1
    | error cause behind =>
      rw [run] at ensured
      exact ensured.1

/-- Slots with the identifiers 14, 13, 2 and 3, and 5 in the others. -/
def aroundZero : RefSlots :=
  #v[14, 13, 2, 3, 5, 5, 5, 5].map fun id => { RefSlot.empty with valid := true, frameId := id }

/-- With distances of two bits and identifiers of four, the frame 2 reaches back to the frame 14,
    which is how far back a reference may say that it lies. -/
theorem expire_window_around_zero :
    ∃ sequence rest kept behind,
      SequenceHeader.parse ⟨.sequenceHeader, none, none⟩
        [0x00, 0x00, 0x00, 0x03, 0x37, 0xFF, 0xF0, 0x20, 0x26, 0x80, 0x04] = .ok sequence rest ∧
      sequence.frameIds = some ⟨2, 2⟩ ∧ 2 < 2 ^ FrameIds.idLength ⟨2, 2⟩ ∧
      (∀ slot ∈ aroundZero, slot.frameId < 2 ^ FrameIds.idLength ⟨2, 2⟩) ∧
      expire ⟨2, 2⟩ 2 aroundZero = .ok kept ∧
      kept[(0 : Fin 8)].valid = true ∧ kept[(1 : Fin 8)].valid = false ∧
      kept[(2 : Fin 8)].valid = true ∧ kept[(3 : Fin 8)].valid = false ∧
      ReadFrame.checkReference sequence 2 aroundZero 0 0 ⟨⟨0, [true, true]⟩, aroundZero⟩ =
        .ok () behind ∧
      FrameIds.Window ⟨2, 2⟩ 2 aroundZero[(0 : Fin 8)].frameId := by
  have facts : Step.Succeeds (fun sequence _ => sequence.frameIds = some ⟨2, 2⟩)
      (SequenceHeader.parse ⟨.sequenceHeader, none, none⟩
        [0x00, 0x00, 0x00, 0x03, 0x37, 0xFF, 0xF0, 0x20, 0x26, 0x80, 0x04]) := by
    decide +kernel
  obtain ⟨sequence, rest, parsed, present⟩ := facts.eq_ok
  have known : 2 < 2 ^ FrameIds.idLength ⟨2, 2⟩ := by decide
  have stored : ∀ slot ∈ aroundZero, slot.frameId < 2 ^ FrameIds.idLength ⟨2, 2⟩ := by
    decide +kernel
  obtain ⟨⟨kept, run, slots⟩, checked⟩ := expire_window parsed present known stored
  have lost : ∀ i : Fin 8, aroundZero[i].valid = true ∧ ¬FrameIds.Window ⟨2, 2⟩ 2
      aroundZero[i].frameId → kept[i].valid = false := fun i outside =>
    Bool.eq_false_iff.2 fun valid => outside.2 ((slots i).1.1 valid).2
  have check : Step.Succeeds (fun _ _ => True) (ReadFrame.checkReference sequence 2 aroundZero 0 0
      ⟨⟨0, [true, true]⟩, aroundZero⟩) := by
    rw [ReadFrame.checkReference, present]
    decide +kernel
  obtain ⟨⟨⟩, behind, passed, -⟩ := check.eq_ok
  have inside := checked 0 0 ⟨⟨0, [true, true]⟩, aroundZero⟩
  rw [passed] at inside
  exact ⟨sequence, rest, kept, behind, parsed, present, known, stored, run,
    (slots 0).1.2 (by decide +kernel), lost 1 (by decide +kernel),
    (slots 2).1.2 (by decide +kernel), lost 3 (by decide +kernel), passed, inside⟩

end RefSlots

end Av1Tiling
