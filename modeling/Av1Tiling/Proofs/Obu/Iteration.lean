import Av1Tiling.Proofs.Obu.Reading

/-!
# Going over the OBUs of a unit

A call for the next OBU goes on by at least one byte and stays in the unit, wherever it fails. So
calls end with the last byte, behind no more of them than bytes. An OBU that was found is made of the
bytes that its call has gone over: where no call fails, the OBUs are the whole unit.
-/

namespace Av1Tiling

theorem Cursor.remaining_eq_zero_iff {cursor : Cursor} :
    cursor.remaining = 0 ↔ cursor.data.length ≤ cursor.pos := by
  rw [remaining]
  omega

namespace Obu

/-- The calls from `cursor` on yield `items`, and there is none behind `last`. -/
inductive Drains : Cursor → List (Except (Failure ObuError) Obu) → Cursor → Prop
  | done {cursor : Cursor} (none : next cursor = none) : Drains cursor [] cursor
  | call {cursor between last : Cursor} {item : Except (Failure ObuError) Obu}
      {items : List (Except (Failure ObuError) Obu)} (called : next cursor = some (item, between))
      (others : Drains between items last) : Drains cursor (item :: items) last

/-- Some calls from the start of `unit` on leave the cursor there. -/
inductive Reached (unit : Bytes) : Cursor → Prop
  | start : Reached unit (.ofBytes unit)
  | call {cursor behind : Cursor} {item : Except (Failure ObuError) Obu} (reached : Reached unit cursor)
      (called : next cursor = some (item, behind)) : Reached unit behind

/-- The OBUs follow on each other from `start` to `stop`. -/
def Consecutive : (start : Nat) → List Obu → (stop : Nat) → Prop
  | start, [], stop => start = stop
  | start, obu :: rest, stop => obu.offset = start ∧ Consecutive (start + obu.unitSize) rest stop

/-- The bytes that an OBU takes in its unit. -/
def bytesIn (unit : Bytes) (obu : Obu) : Bytes :=
  unit.slice obu.offset obu.unitSize

/-! ## One call -/

theorem next_eq_none {cursor : Cursor} (inside : cursor.pos ≤ cursor.data.length)
    (none : next cursor = none) : cursor = ⟨cursor.data, cursor.data.length⟩ := by
  rw [next] at none
  split at none
  next empty =>
    have stop : cursor.pos = cursor.data.length :=
      Nat.le_antisymm inside (Cursor.remaining_eq_zero_iff.1 empty)
    rw [← stop]
  next => split at none <;> cases none

/-- A call goes on in the unit, and what it finds is what it has gone over. It is no fault. -/
theorem next_forward {cursor behind : Cursor} {item : Except (Failure ObuError) Obu}
    (called : next cursor = some (item, behind)) :
    Forward cursor behind ∧ (∀ obu, item = .ok obu → obu.Between cursor behind) ∧
      GoesOn item := by
  rw [next] at called
  split at called
  next => cases called
  next left =>
    have some : cursor.pos < cursor.data.length := by
      rw [Cursor.remaining_eq_zero_iff] at left
      exact Nat.lt_of_not_le left
    split at called
    next obu between run =>
      cases called
      obtain ⟨-, forward, found⟩ := read_between some run
      refine ⟨forward, fun other same => ?_, nofun⟩
      rwa [← Except.ok.inj same]
    next cause between run =>
      cases called
      obtain ⟨noFault, forward⟩ := (read_forward some).2 cause behind run
      refine ⟨forward, nofun, fun fault same => ?_⟩
      exact noFault ⟨fault, Except.error.inj same⟩

/-! ## All calls -/

theorem Reached.data {unit : Bytes} {cursor : Cursor} (reached : Reached unit cursor) :
    cursor.data = unit := by
  induction reached with
  | start => rfl
  | call _ called ih => exact (next_forward called).1.data.trans ih

/-- Reading many OBUs is to call until there are no more. -/
theorem readMany_drains {count : Nat} {cursor : Cursor} (inside : cursor.pos ≤ cursor.data.length)
    (enough : cursor.data.length ≤ cursor.pos + count) :
    Drains cursor (readMany count cursor).1 (readMany count cursor).2 := by
  induction count generalizing cursor with
  | zero =>
    have empty : cursor.remaining = 0 := Cursor.remaining_eq_zero_iff.2 enough
    exact .done (if_pos empty)
  | succ count ih =>
    by_cases empty : cursor.remaining = 0
    · rw [readMany, if_pos empty]
      exact .done (if_pos empty)
    · have calls {item : Except (Failure ObuError) Obu} {behind : Cursor}
          (called : next cursor = some (item, behind)) :
          Drains cursor (item :: (readMany count behind).1) (readMany count behind).2 := by
        obtain ⟨⟨data, onward, inside⟩, -⟩ := next_forward called
        exact .call called (ih inside (by rw [data]; omega))
      rw [readMany, if_neg empty]
      cases run : read cursor with
      | ok obu behind => exact calls (by rw [next, if_neg empty, run])
      | error cause behind =>
        have called : next cursor = some (.error cause, behind) := by rw [next, if_neg empty, run]
        cases cause with
        | raised error => exact calls called
        | fault cause => exact absurd rfl ((next_forward called).2.2 cause)

/-- There is only one way to go on. -/
theorem Drains.unique {cursor last other : Cursor} {items others : List (Except (Failure ObuError) Obu)}
    (first : Drains cursor items last) (second : Drains cursor others other) :
    items = others ∧ last = other := by
  induction first generalizing others other with
  | done none =>
    cases second with
    | done => exact ⟨rfl, rfl⟩
    | call called => rw [none] at called; cases called
  | call called _ ih =>
    cases second with
    | done none => rw [none] at called; cases called
    | call again rest =>
      obtain ⟨rfl, rfl⟩ := Prod.mk.inj (Option.some.inj (called.symm.trans again))
      obtain ⟨rfl, rfl⟩ := ih rest
      exact ⟨rfl, rfl⟩

/-- Every item takes a byte, and the last byte is taken. -/
theorem Drains.stop {cursor last : Cursor} {items : List (Except (Failure ObuError) Obu)}
    (drains : Drains cursor items last) (inside : cursor.pos ≤ cursor.data.length) :
    last = ⟨cursor.data, cursor.data.length⟩ ∧ cursor.pos + items.length ≤ cursor.data.length := by
  induction drains with
  | done none => exact ⟨next_eq_none inside none, inside⟩
  | call called _ ih =>
    obtain ⟨⟨data, onward, within⟩, -⟩ := next_forward called
    obtain ⟨stop, few⟩ := ih within
    rw [data] at stop few
    rw [List.length_cons]
    exact ⟨stop, by omega⟩

/-- The bytes of an OBU and those behind it are those in front of it. -/
theorem Between.rest {obu : Obu} {cursor behind : Cursor} (between : obu.Between cursor behind)
    (same : behind.data = cursor.data) :
    obu.bytesIn cursor.data ++ behind.rest = cursor.rest := by
  rw [bytesIn, Bytes.slice, Cursor.rest, Cursor.rest, same, ← between.stop, ← between.offset,
    ← List.drop_drop, List.take_append_drop]

/-- Where no call fails, the OBUs are all that was there. -/
theorem Drains.whole {cursor last : Cursor} {obus : List Obu}
    (drains : Drains cursor (obus.map .ok) last) (inside : cursor.pos ≤ cursor.data.length) :
    Consecutive cursor.pos obus cursor.data.length ∧
      obus.flatMap (bytesIn cursor.data) = cursor.rest := by
  induction obus generalizing cursor with
  | nil =>
    cases drains with
    | done none =>
      have stop := congrArg Cursor.pos (next_eq_none inside none)
      refine ⟨stop, ?_⟩
      rw [Cursor.rest, stop, List.drop_length, List.flatMap_nil]
  | cons obu rest ih =>
    cases drains with
    | call called others =>
      obtain ⟨⟨data, -, within⟩, found, -⟩ := next_forward called
      have between := found obu rfl
      obtain ⟨later, bytes⟩ := ih others within
      rw [data] at later bytes
      rw [← between.stop, between.offset] at later
      refine ⟨⟨between.offset, later⟩, ?_⟩
      rw [List.flatMap_cons, bytes, between.rest data]

/-- All bytes of a unit are accounted for. Calling until there is nothing left ends in exactly one
    way, at the end of the unit and behind no more items than bytes. Every call that yields an item
    goes on and stays in the unit, an OBU that it yields is what lies between the two positions, and
    all else that it yields is an error and no fault. Where all items are OBUs they follow on each
    other and are, byte for byte, the unit. -/
theorem readAll_accounts (unit : Bytes) :
    (∀ items last, Drains (.ofBytes unit) items last ↔ readAll unit = (items, last)) ∧
      (readAll unit).2 = ⟨unit, unit.length⟩ ∧ (readAll unit).1.length ≤ unit.length ∧
      (∀ cursor item behind, Reached unit cursor → next cursor = some (item, behind) →
        cursor.data = unit ∧ Forward cursor behind ∧
          (∀ obu, item = .ok obu → obu.Between cursor behind) ∧ GoesOn item) ∧
      ∀ obus, (readAll unit).1 = obus.map .ok →
        Consecutive 0 obus unit.length ∧ obus.flatMap (bytesIn unit) = unit := by
  have start : (Cursor.ofBytes unit).pos ≤ (Cursor.ofBytes unit).data.length := Nat.zero_le _
  have drains : Drains (.ofBytes unit) (readAll unit).1 (readAll unit).2 :=
    readMany_drains start (Nat.le_add_left _ _)
  obtain ⟨stop, few⟩ := drains.stop start
  rw [Cursor.ofBytes, Nat.zero_add] at few
  refine ⟨?_, stop, few, ?_, ?_⟩
  · intro items last
    constructor
    · intro other
      obtain ⟨same, done⟩ := drains.unique other
      rw [← same, ← done]
    · intro same
      rwa [same] at drains
  · intro cursor item behind reached called
    exact ⟨reached.data, next_forward called⟩
  · intro obus same
    rw [same] at drains
    exact drains.whole start

/-- A byte that opens no header, and an OBU without payload behind it. -/
def brokenFirst : Bytes := [0x80, 0x12, 0x00]

/-- Two OBUs, the second with a payload of one byte. -/
def delimiterAndPadding : Bytes := [0x12, 0x00, 0x7A, 0x01, 0x80]

/-- Behind the byte that could not be read an OBU is found, and OBUs that are all found are the
    unit. -/
theorem readAll_accounts_behind_error :
    (Reached brokenFirst ⟨brokenFirst, 1⟩ ∧
      next ⟨brokenFirst, 1⟩ =
        some (.ok ⟨⟨.temporalDelimiter, some 0, none⟩, 1, 2, []⟩, ⟨brokenFirst, 3⟩) ∧
      Forward ⟨brokenFirst, 1⟩ ⟨brokenFirst, 3⟩ ∧
      Between ⟨⟨.temporalDelimiter, some 0, none⟩, 1, 2, []⟩ ⟨brokenFirst, 1⟩ ⟨brokenFirst, 3⟩) ∧
      (readAll delimiterAndPadding).1 = [⟨⟨.temporalDelimiter, some 0, none⟩, 0, 2, []⟩,
        ⟨⟨.padding, some 1, none⟩, 2, 2, [0x80]⟩].map .ok ∧
      Consecutive 0 [⟨⟨.temporalDelimiter, some 0, none⟩, 0, 2, []⟩,
        ⟨⟨.padding, some 1, none⟩, 2, 2, [0x80]⟩] 5 := by
  have broken : next ⟨brokenFirst, 0⟩ =
      some (.error (.raised (.stream (.valueOutside "obu_forbidden_bit" 1 0 0))),
        ⟨brokenFirst, 1⟩) := by
    decide +kernel
  have found : next ⟨brokenFirst, 1⟩ =
      some (.ok ⟨⟨.temporalDelimiter, some 0, none⟩, 1, 2, []⟩, ⟨brokenFirst, 3⟩) := by
    decide +kernel
  have all : (readAll delimiterAndPadding).1 = [⟨⟨.temporalDelimiter, some 0, none⟩, 0, 2, []⟩,
      ⟨⟨.padding, some 1, none⟩, 2, 2, [0x80]⟩].map .ok := by
    decide +kernel
  have reached : Reached brokenFirst ⟨brokenFirst, 1⟩ := Reached.start.call broken
  obtain ⟨-, -, -, accounts, -⟩ := readAll_accounts brokenFirst
  obtain ⟨-, -, -, -, whole⟩ := readAll_accounts delimiterAndPadding
  obtain ⟨-, forward, between, -⟩ := accounts _ _ _ reached found
  exact ⟨⟨reached, found, forward, between _ rfl⟩, all, (whole _ all).1⟩

end Obu

end Av1Tiling
