import Av1Tiling.Bytes.Cursor

/-!
# Taking bytes off a cursor

A cursor is used by a few calls (`CursorCall`): it may be moved anywhere, and bytes are taken where it
stands. A call for more bytes than remain is refused. All others are answered where the cursor stands
in its data or at their end. Behind the end nothing remains, and a call for just that has no place to
take it from (`Strays`): it is a fault, behind which there is no cursor any more. So a cursor is
`Total` exactly where it is not behind the end, where only a seek can bring it (`after_takes`).
-/

namespace Av1Tiling

/-- A call on a cursor. -/
inductive CursorCall
  | seek (pos : Nat)
  /-- The next `size` bytes. -/
  | extract (size : Nat)
  /-- All bytes that remain. -/
  | extractRest
  deriving Repr, DecidableEq

namespace CursorCall

/-- The bytes that a call takes and the cursor behind them. A seek takes none. -/
def run : CursorCall → Cursor → Except (Failure StreamError) (Bytes × Cursor)
  | seek pos, cursor => .ok ([], cursor.seek pos)
  | extract size, cursor => cursor.extract size
  | extractRest, cursor => cursor.extractRest

/-- The cursor behind a call. One that is refused does not move it, and a fault leaves none. -/
def behind? (call : CursorCall) (cursor : Cursor) : Option Cursor :=
  match call.run cursor with
  | .ok (_, behind) => some behind
  | .error (.raised _) => some cursor
  | .error (.fault _) => none

/-- The call goes on where the cursor stands. -/
def Takes : CursorCall → Prop
  | seek _ => False
  | extract _ => True
  | extractRest => True

instance : DecidablePred Takes
  | seek _ => .isFalse id
  | extract _ => .isTrue trivial
  | extractRest => .isTrue trivial

/-- The call leaves the data of the cursor. -/
def Faults (call : CursorCall) (cursor : Cursor) : Prop :=
  ∃ cause, call.run cursor = .error (.fault cause)

/-- The call takes the bytes that remain behind the end of the data, of which there are none. -/
def Strays (call : CursorCall) (cursor : Cursor) : Prop :=
  cursor.data.length < cursor.pos ∧ (call = .extract 0 ∨ call = .extractRest)

end CursorCall

namespace Cursor

/-- The cursor behind some calls, each of which may have been refused, unless one of them was a
    fault. -/
def after (cursor : Cursor) : List CursorCall → Option Cursor
  | [] => some cursor
  | call :: rest => (call.behind? cursor).bind fun behind => behind.after rest

/-- What is taken by those of some calls that do not fail, up to a fault. -/
def pieces (cursor : Cursor) : List CursorCall → List Bytes
  | [] => []
  | call :: rest =>
    match call.run cursor with
    | .ok (piece, behind) => piece :: behind.pieces rest
    | .error (.raised _) => cursor.pieces rest
    | .error (.fault _) => []

/-- The cursor yields any number of bytes that remains, and all of them, and refuses others. -/
structure Total (cursor : Cursor) : Prop where
  extract : ∀ size, cursor.extract size =
    if size ≤ cursor.remaining then
      .ok (cursor.data.slice cursor.pos size, cursor.seek (cursor.pos + size))
    else
      .error (.raised (.tooFewBytes size cursor.remaining))
  rest : cursor.extractRest = .ok (cursor.rest, cursor.seek (cursor.pos + cursor.remaining))

variable {cursor behind : Cursor} {size : Nat} {bytes : Bytes}

/-! ## One call -/

theorem length_eq_add_remaining (inside : cursor.pos ≤ cursor.data.length) :
    cursor.data.length = cursor.pos + cursor.remaining := by
  rw [remaining]
  omega

theorem remaining_of_past (past : cursor.data.length < cursor.pos) : cursor.remaining = 0 := by
  rw [remaining]
  omega

/-- More bytes than remain are refused, wherever the cursor stands. -/
theorem extract_of_few (few : cursor.remaining < size) :
    cursor.extract size = .error (.raised (.tooFewBytes size cursor.remaining)) :=
  if_pos few

/-- The next bytes are taken where they are there. -/
theorem extract_of_inside (inside : cursor.pos + size ≤ cursor.data.length) :
    cursor.extract size =
      .ok (cursor.data.slice cursor.pos size, cursor.seek (cursor.pos + size)) := by
  have enough : ¬ cursor.remaining < size := by
    rw [remaining]
    omega
  rw [extract, if_neg enough, if_neg (Nat.not_lt.2 inside)]

/-- Behind the end not even nothing can be taken. -/
theorem extract_of_past (past : cursor.data.length < cursor.pos) :
    cursor.extract 0 =
      .error (.fault (.outsideBuffer cursor.pos cursor.pos cursor.data.length)) := by
  rw [extract, if_neg (Nat.not_lt_zero _), Nat.add_zero, if_pos past]

/-- Bytes are too few, or they are there, or they are none behind the end. -/
theorem extract_cases (cursor : Cursor) (size : Nat) :
    cursor.remaining < size ∨ cursor.pos + size ≤ cursor.data.length ∨
      cursor.data.length < cursor.pos ∧ size = 0 := by
  rw [remaining]
  omega

/-- Bytes that were taken are the next ones, and the cursor is behind them. -/
theorem extract_eq_ok (run : cursor.extract size = .ok (bytes, behind)) :
    bytes.length = size ∧ behind = cursor.seek (cursor.pos + size) ∧
      cursor.rest = bytes ++ behind.rest := by
  rcases cursor.extract_cases size with few | inside | ⟨past, rfl⟩
  · rw [extract_of_few few] at run
    cases run
  · rw [extract_of_inside inside] at run
    cases run
    refine ⟨Bytes.length_slice inside, rfl, ?_⟩
    show cursor.rest = cursor.rest.take size ++ cursor.data.drop (cursor.pos + size)
    rw [rest, ← List.drop_drop, List.take_append_drop]
  · rw [extract_of_past past] at run
    cases run

end Cursor

namespace CursorCall

variable {call : CursorCall} {cursor behind : Cursor} {bytes : Bytes}

theorem faults_iff_strays : call.Faults cursor ↔ call.Strays cursor := by
  have none (size : Nat) : (∃ cause, cursor.extract size = .error (.fault cause)) ↔
      cursor.data.length < cursor.pos ∧ size = 0 := by
    constructor
    · rintro ⟨cause, run⟩
      rcases cursor.extract_cases size with few | inside | past
      · rw [Cursor.extract_of_few few] at run
        cases run
      · rw [Cursor.extract_of_inside inside] at run
        cases run
      · exact past
    · rintro ⟨past, rfl⟩
      exact ⟨_, Cursor.extract_of_past past⟩
  cases call with
  | seek pos => simp [Faults, Strays, run]
  | extract size => simpa [Faults, Strays, run] using none size
  | extractRest =>
    have empty : cursor.data.length < cursor.pos → cursor.remaining = 0 :=
      Cursor.remaining_of_past
    simpa [Faults, Strays, run, Cursor.extractRest] using (none cursor.remaining).trans
      (and_iff_left_of_imp empty)

/-- A call moves the cursor, or takes some number of bytes. -/
theorem seek_or_extract (call : CursorCall) (cursor : Cursor) :
    (∃ pos, call = .seek pos) ∨ ∃ size, call.run cursor = cursor.extract size := by
  cases call with
  | seek pos => exact .inl ⟨pos, rfl⟩
  | extract size => exact .inr ⟨size, rfl⟩
  | extractRest => exact .inr ⟨cursor.remaining, rfl⟩

/-- A call that goes on where the cursor stands takes the next bytes. -/
theorem run_eq_ok (takes : call.Takes) (success : call.run cursor = .ok (bytes, behind)) :
    behind.pos = cursor.pos + bytes.length ∧ cursor.rest = bytes ++ behind.rest := by
  rcases call.seek_or_extract cursor with ⟨pos, rfl⟩ | ⟨size, same⟩
  · exact takes.elim
  · rw [same] at success
    obtain ⟨length, rfl, next⟩ := Cursor.extract_eq_ok success
    exact ⟨by rw [length, Cursor.seek], next⟩

/-- Behind a call the cursor is where it was, or behind the bytes that it yields, or it was moved. -/
theorem behind?_cases (found : call.behind? cursor = some behind) :
    behind = cursor ∨ (∃ pos, call = .seek pos ∧ behind = cursor.seek pos) ∨
      ∃ size, cursor.pos + size ≤ cursor.data.length ∧ behind = cursor.seek (cursor.pos + size) := by
  rw [behind?] at found
  rcases call.seek_or_extract cursor with ⟨pos, rfl⟩ | ⟨size, same⟩
  · exact .inr (.inl ⟨pos, rfl, (Option.some.inj found).symm⟩)
  · rw [same] at found
    rcases cursor.extract_cases size with few | inside | ⟨past, rfl⟩
    · rw [Cursor.extract_of_few few] at found
      exact .inl (Option.some.inj found).symm
    · rw [Cursor.extract_of_inside inside] at found
      exact .inr (.inr ⟨size, inside, (Option.some.inj found).symm⟩)
    · rw [Cursor.extract_of_past past] at found
      cases found

theorem behind?_data (found : call.behind? cursor = some behind) : behind.data = cursor.data := by
  obtain rfl | ⟨pos, -, rfl⟩ | ⟨size, -, rfl⟩ := behind?_cases found
  · rfl
  · rfl
  · rfl

/-- Only a seek leaves the data. -/
theorem behind?_inside (found : call.behind? cursor = some behind)
    (inside : cursor.pos ≤ cursor.data.length)
    (near : ∀ pos, call = .seek pos → pos ≤ cursor.data.length) :
    behind.pos ≤ cursor.data.length := by
  obtain rfl | ⟨pos, rfl, rfl⟩ | ⟨size, enough, rfl⟩ := behind?_cases found
  · exact inside
  · exact near pos rfl
  · exact enough

/-- Where the cursor stands in its data, no call is a fault. -/
theorem behind?_isSome (call : CursorCall) (inside : cursor.pos ≤ cursor.data.length) :
    ∃ behind, call.behind? cursor = some behind := by
  rw [behind?]
  cases run : call.run cursor with
  | ok taken => exact ⟨_, rfl⟩
  | error cause =>
    cases cause with
    | raised error => exact ⟨_, rfl⟩
    | fault cause =>
      have strays := faults_iff_strays.1 ⟨cause, run⟩
      exact absurd strays.1 (Nat.not_lt.2 inside)

end CursorCall

namespace Cursor

variable {cursor : Cursor}

/-- A cursor is total where it is not behind the end. -/
theorem total_iff : cursor.Total ↔ cursor.pos ≤ cursor.data.length := by
  constructor
  · intro total
    apply Nat.not_lt.1
    intro past
    have none := total.extract 0
    rw [extract_of_past past] at none
    cases none
  · intro inside
    have all := length_eq_add_remaining inside
    constructor
    · intro size
      by_cases enough : size ≤ cursor.remaining
      · rw [if_pos enough, extract_of_inside (by omega)]
      · rw [if_neg enough, extract_of_few (Nat.not_le.1 enough)]
    · have whole : cursor.data.slice cursor.pos cursor.remaining = cursor.rest := by
        rw [remaining_eq_length_rest]
        exact List.take_length
      rw [extractRest, extract_of_inside (Nat.le_of_eq all.symm), whole]

/-! ## All calls -/

variable {behind : Cursor} {calls takes : List CursorCall}

theorem after_data (reached : cursor.after calls = some behind) : behind.data = cursor.data := by
  induction calls generalizing cursor with
  | nil => rw [Option.some.inj reached]
  | cons call rest ih =>
    obtain ⟨next, first, later⟩ := Option.bind_eq_some_iff.1 reached
    exact (ih later).trans (CursorCall.behind?_data first)

theorem after_inside (reached : cursor.after calls = some behind)
    (inside : cursor.pos ≤ cursor.data.length)
    (near : ∀ pos, .seek pos ∈ calls → pos ≤ cursor.data.length) :
    behind.pos ≤ cursor.data.length := by
  induction calls generalizing cursor with
  | nil =>
    rw [← Option.some.inj reached]
    exact inside
  | cons call rest ih =>
    obtain ⟨next, first, later⟩ := Option.bind_eq_some_iff.1 reached
    have same := CursorCall.behind?_data first
    have onward : next.pos ≤ cursor.data.length :=
      CursorCall.behind?_inside first inside fun pos seeks => near pos (by simp [seeks])
    rw [← same] at onward near ⊢
    exact ih later onward fun pos sought => near pos (.tail _ sought)

/-- Taking bytes never leaves the data, and so never ends in a fault. -/
theorem after_isSome (inside : cursor.pos ≤ cursor.data.length)
    (going : ∀ call ∈ takes, call.Takes) : ∃ behind, cursor.after takes = some behind := by
  induction takes generalizing cursor with
  | nil => exact ⟨cursor, rfl⟩
  | cons call rest ih =>
    obtain ⟨here, onward⟩ := List.forall_mem_cons.1 going
    obtain ⟨next, first⟩ := call.behind?_isSome inside
    have near : next.pos ≤ cursor.data.length :=
      CursorCall.behind?_inside first inside (by rintro pos rfl; exact here.elim)
    rw [← CursorCall.behind?_data first] at near
    obtain ⟨last, later⟩ := ih near onward
    exact ⟨last, Option.bind_eq_some_iff.2 ⟨next, first, later⟩⟩

/-- What is taken without a seek in between lies next to each other. -/
theorem pieces_adjacent (going : ∀ call ∈ takes, call.Takes)
    (reached : cursor.after takes = some behind) :
    behind.pos = cursor.pos + (cursor.pieces takes).flatten.length ∧
      cursor.rest = (cursor.pieces takes).flatten ++ behind.rest := by
  induction takes generalizing cursor with
  | nil =>
    rw [← Option.some.inj reached]
    exact ⟨rfl, rfl⟩
  | cons call rest ih =>
    obtain ⟨here, later⟩ := List.forall_mem_cons.1 going
    obtain ⟨next, first, onward⟩ := Option.bind_eq_some_iff.1 reached
    rw [CursorCall.behind?] at first
    rw [pieces]
    cases success : call.run cursor with
    | error cause =>
      rw [success] at first
      cases cause with
      | raised error =>
        obtain rfl := Option.some.inj first
        exact ih later onward
      | fault cause => cases first
    | ok taken =>
      obtain ⟨piece, between⟩ := taken
      rw [success] at first
      obtain rfl := Option.some.inj first
      obtain ⟨pos, next⟩ := CursorCall.run_eq_ok here success
      obtain ⟨stop, others⟩ := ih later onward
      refine ⟨?_, ?_⟩
      · rw [List.flatten_cons, List.length_append, ← Nat.add_assoc, ← pos]
        exact stop
      · rw [List.flatten_cons, List.append_assoc, next]
        exact congrArg (piece ++ ·) others

/-- Behind any calls on a cursor of `data`, refused ones included. More bytes than remain are refused,
    and a call is a fault exactly where it takes none from behind the end. The cursor is total
    wherever it is not behind the end, and it is there only if some seek went there. What is taken
    from it without another seek are the bytes from its position up to the one behind them, and
    where it is total that never ends in a fault. -/
theorem after_takes {data : Bytes} {calls : List CursorCall} {cursor : Cursor}
    (reached : (ofBytes data).after calls = some cursor) :
    cursor.data = data ∧
      (∀ size, cursor.remaining < size →
        cursor.extract size = .error (.raised (.tooFewBytes size cursor.remaining))) ∧
      (∀ call : CursorCall, call.Faults cursor ↔ call.Strays cursor) ∧
      (cursor.Total ↔ cursor.pos ≤ data.length) ∧
      ((∀ pos, .seek pos ∈ calls → pos ≤ data.length) → cursor.pos ≤ data.length) ∧
      ∀ takes : List CursorCall, (∀ call ∈ takes, call.Takes) →
        (cursor.pos ≤ data.length → ∃ behind, cursor.after takes = some behind) ∧
        ∀ behind, cursor.after takes = some behind →
          let taken := (cursor.pieces takes).flatten
          behind.pos = cursor.pos + taken.length ∧
            taken = data.slice cursor.pos taken.length := by
  have start : (ofBytes data).pos ≤ (ofBytes data).data.length := Nat.zero_le _
  have same : cursor.data = data := after_data reached
  refine ⟨same, fun _ => extract_of_few, fun _ => CursorCall.faults_iff_strays, ?_, ?_, ?_⟩
  · rw [total_iff, same]
  · exact after_inside reached start
  · intro takes going
    refine ⟨fun inside => after_isSome (same ▸ inside) going, fun behind later => ?_⟩
    obtain ⟨pos, next⟩ := pieces_adjacent going later
    refine ⟨pos, ?_⟩
    rw [rest, same] at next
    rw [Bytes.slice, next, List.take_left]

/-- Behind a seek to the middle of five bytes: two of them, too many, none, and the rest. -/
def middle : List CursorCall := [.extract 2, .extract 9, .extract 0, .extractRest]

theorem after_takes_middle :
    (∀ pos, CursorCall.seek pos ∈ [.extract 4, .extract 7, .seek 1] →
      pos ≤ [1, 2, 3, 4, 5].length) ∧
    ∃ cursor, (ofBytes [1, 2, 3, 4, 5]).after [.extract 4, .extract 7, .seek 1] = some cursor ∧
      cursor.pos = 1 ∧ cursor.Total ∧
      (cursor.remaining < 9 ∧ cursor.extract 9 = .error (.raised (.tooFewBytes 9 4))) ∧
      (∀ call ∈ middle, call.Takes) ∧ cursor.pieces middle = [[2, 3], [], [4, 5]] ∧
      ∃ behind, cursor.after middle = some behind ∧ behind.pos = 5 := by
  have near : ∀ pos, CursorCall.seek pos ∈ [.extract 4, .extract 7, .seek 1] →
      pos ≤ [1, 2, 3, 4, 5].length := by
    simp
  have going : ∀ call ∈ middle, call.Takes := by decide
  have reached : (ofBytes [1, 2, 3, 4, 5]).after [.extract 4, .extract 7, .seek 1] =
      some ⟨[1, 2, 3, 4, 5], 1⟩ := rfl
  obtain ⟨-, refuses, -, total, inside, adjacent⟩ := after_takes reached
  obtain ⟨onward, taken⟩ := adjacent middle going
  obtain ⟨behind, later⟩ := onward (inside near)
  exact ⟨near, _, reached, rfl, total.2 (inside near), ⟨by decide, refuses 9 (by decide)⟩, going, rfl,
    behind, later, (taken behind later).1⟩

/-- Behind the end the bytes that remain, of which there are none, cannot be taken. -/
theorem not_total_past_end :
    ∃ cursor, (ofBytes [1, 2]).after [.seek 3] = some cursor ∧ ¬ cursor.Total ∧
      cursor.remaining = 0 ∧ cursor.extract 0 = .error (.fault (.outsideBuffer 3 3 2)) ∧
      cursor.extractRest = .error (.fault (.outsideBuffer 3 3 2)) ∧
      (ofBytes [1, 2]).after [.seek 3, .extractRest] = none := by
  refine ⟨⟨[1, 2], 3⟩, rfl, ?_, rfl, rfl, rfl, rfl⟩
  rw [total_iff]
  decide

end Cursor

end Av1Tiling
