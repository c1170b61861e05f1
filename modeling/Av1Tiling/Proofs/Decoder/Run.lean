import Av1Tiling.Proofs.Decoder.Outcome
import Mathlib.Data.List.Induction

/-!
# The run of a decoder

A decoder is handed one OBU after the other, and goes on behind those that it cannot interpret,
unless it faults. A run is known by its events, the latest first. An OBU that cannot be interpreted
changes nothing but the slots, and those only as far as its frame header came (`failed_leaves`).
-/

namespace Av1Tiling.Decode

/-- What happens to a decoder. -/
structure Event where
  /-- The state in front of the OBU. -/
  before : DecoderState
  obu : Obu
  /-- What the OBU holds, or why it cannot be interpreted. -/
  answer : Except (Failure ObuError) ObuContent

/-- What comes of an OBU, and the decoder behind it. -/
def answer (obu : Obu) (state : DecoderState) :
    Except (Failure ObuError) ObuContent × DecoderState :=
  match interpret obu state with
  | .ok content behind => (.ok content, behind)
  | .error cause behind => (.error cause, behind)

/-- The decoder behind some events, the latest first. -/
inductive Ran : List Event → DecoderState → Prop
  | opened : Ran [] .empty
  | obu {events : List Event} {state : DecoderState} (obu : Obu) (ran : Ran events state)
      (goesOn : GoesOn (answer obu state).1) :
      Ran (⟨state, obu, (answer obu state).1⟩ :: events) (answer obu state).2

variable {state behind : DecoderState} {obu : Obu}

theorem answer_eq_ok {content : ObuContent} :
    answer obu state = (.ok content, behind) ↔ interpret obu state = .ok content behind := by
  unfold answer
  cases interpret obu state <;> simp

theorem answer_eq_error {cause : Failure ObuError} :
    answer obu state = (.error cause, behind) ↔ interpret obu state = .error cause behind := by
  unfold answer
  cases interpret obu state <;> simp

theorem sequenceHeader_failed {cause : Failure ObuError}
    (run : sequenceHeader obu state = .error cause behind) : behind = state := by
  unfold sequenceHeader at run
  cases parsed : SequenceHeader.parse obu.header obu.payload <;> rw [parsed] at run <;> cases run
  rfl

/-- The slots behind a frame header that cannot be read. -/
def LeftSlots (state : DecoderState) (obu : Obu) (behind : DecoderState) : Prop :=
  ∃ sequence cause slots, state.sequence = some sequence ∧
    FrameHeader.parse sequence obu.header obu.payload state.slots = .error cause slots ∧
    behind = { state with slots }

theorem frameHeader_failed {cause : Failure ObuError}
    (run : frameHeader obu state = .error cause behind) :
    behind = state ∨ LeftSlots state obu behind := by
  unfold frameHeader at run
  cases present : state.sequence with
  | none =>
    simp only [present] at run
    cases run
    exact .inl rfl
  | some sequence =>
    simp only [present] at run
    cases parsed : FrameHeader.parse sequence obu.header obu.payload state.slots <;>
      rw [parsed] at run <;> cases run
    exact .inr ⟨sequence, _, _, present, parsed, by rw [present]⟩

theorem startFrame_failed {cause : Failure ObuError}
    (run : startFrame obu state = .error cause behind) :
    behind = state ∨ LeftSlots state obu behind := by
  rcases Step.bind_eq_error.1 run with first | ⟨frame, between, -, later⟩
  · exact frameHeader_failed first
  · by_cases shown : frame.showExisting = true
    · rw [if_pos shown] at later
      cases later
    · rw [if_neg shown] at later
      cases later

theorem tileGroup_failed {cause : Failure ObuError} (run : tileGroup obu state = .error cause behind) :
    behind = state := by
  rw [tileGroup, Step.get_bind] at run
  cases waiting : state.pending with
  | none =>
    rw [waiting] at run
    cases run
    rfl
  | some frame =>
    rw [waiting] at run
    cases cut : frame.layout with
    | none =>
      simp only [cut] at run
      cases run
      rfl
    | some layout =>
      simp only [cut] at run
      cases parsed : TileGroup.parse obu.payload layout with
      | error why =>
        rw [parsed] at run
        cases run
        rfl
      | ok group =>
        rw [parsed] at run
        rcases Step.bind_eq_error.1 run with first | ⟨found, _, _, later⟩
        · cases first
        · by_cases last : found.endsFrame layout = true
          · rw [if_pos last] at later
            cases later
          · rw [if_neg last] at later
            cases later

/-- An OBU that cannot be interpreted leaves the state as it was, or with the slots as far as a
    frame header came. -/
theorem failed_leaves {cause : Failure ObuError}
    (run : interpret obu state = .error cause behind) :
    behind = state ∨ LeftSlots state obu behind := by
  have header : (get >>= fun state : DecoderState => if state.pending.isSome then
      pure .frameHeaderCopy else startFrame obu >>= fun frame => pure (.frameHeader frame) :
        Decode ObuContent) state = .error cause behind →
      behind = state ∨ LeftSlots state obu behind := by
    intro run
    rw [Step.get_bind] at run
    by_cases waiting : state.pending.isSome = true
    · rw [if_pos waiting] at run
      cases run
    · rw [if_neg waiting] at run
      rcases Step.bind_eq_error.1 run with first | ⟨frame, _, _, later⟩
      · exact startFrame_failed first
      · cases later
  unfold interpret at run
  cases type : obu.header.type with
  | temporalDelimiter =>
    rw [type] at run
    cases run
  | sequenceHeader =>
    rw [type] at run
    rcases Step.bind_eq_error.1 run with first | ⟨sequence, _, _, later⟩
    · exact .inl (sequenceHeader_failed first)
    · cases later
  | frameHeader =>
    rw [type] at run
    exact header run
  | redundantFrameHeader =>
    rw [type] at run
    exact header run
  | tileGroup =>
    rw [type] at run
    rcases Step.bind_eq_error.1 run with first | ⟨group, _, _, later⟩
    · exact .inl (tileGroup_failed first)
    · cases later
  | frame =>
    rw [type] at run
    rcases Step.bind_eq_error.1 run with first | ⟨frame, _, _, later⟩
    · exact frameHeader_failed first
    · cases later
  | metadata =>
    rw [type] at run
    cases run
  | tileList =>
    rw [type] at run
    cases run
  | padding =>
    rw [type] at run
    cases run
  | reserved code =>
    rw [type] at run
    cases run

/-- What one OBU does to a decoder: it holds something, or it leaves nothing but slots behind. -/
theorem answer_cases (obu : Obu) (state : DecoderState) :
    (∃ content behind, answer obu state = (.ok content, behind) ∧
        Outcome state obu content behind) ∨
      ∃ cause behind, answer obu state = (.error cause, behind) ∧
        (behind = state ∨ LeftSlots state obu behind) := by
  cases run : interpret obu state with
  | ok content behind =>
    exact .inl ⟨content, behind, answer_eq_ok.2 run, interpret_outcome run⟩
  | error cause behind =>
    exact .inr ⟨cause, behind, answer_eq_error.2 run, failed_leaves run⟩

theorem LeftSlots.pending (left : LeftSlots state obu behind) : behind.pending = state.pending := by
  obtain ⟨_, _, _, -, -, rfl⟩ := left
  rfl

theorem Ran.reachable {events : List Event} (ran : Ran events state) : state.Reachable := by
  induction ran with
  | opened => exact .empty
  | @obu events state obu ran goesOn ih =>
    unfold answer at goesOn ⊢
    cases run : interpret obu state with
    | ok content behind => exact .parsedObu ih run
    | error cause behind =>
      rw [run] at goesOn
      cases cause with
      | raised error => exact .failedObu ih run
      | fault cause => exact absurd rfl (goesOn cause)

/-- The run of a decoder through some OBUs, the earliest first. -/
def runThrough (obus : List Obu) : List Event × DecoderState :=
  obus.foldl (fun (events, state) obu =>
    (⟨state, obu, (answer obu state).1⟩ :: events, (answer obu state).2)) ([], .empty)

theorem ran_runThrough {obus : List Obu}
    (goesOn : ∀ event ∈ (runThrough obus).1, GoesOn event.answer) :
    Ran (runThrough obus).1 (runThrough obus).2 := by
  induction obus using List.reverseRecOn with
  | nil => exact .opened
  | append_singleton obus obu ih =>
    rw [runThrough, List.foldl_append] at goesOn ⊢
    obtain ⟨last, earlier⟩ := List.forall_mem_cons.1 goesOn
    exact .obu obu (ih earlier) last

/-- An OBU with a header of two bytes at the start of a unit. -/
def bare (type : ObuType) (payload : Bytes) : Obu :=
  ⟨⟨type, some payload.length, none⟩, 0, 2, payload⟩

end Av1Tiling.Decode
