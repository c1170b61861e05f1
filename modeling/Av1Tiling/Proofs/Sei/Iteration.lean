import Av1Tiling.Proofs.Sei.Framing

/-!
# Going over the messages

A message takes a run of bytes for its type, one for its size, and so many bytes more. Reading a
message finds exactly that in front of the bytes, or the bytes end inside of it (`read_cases`). So
the messages that are read follow on each other from the first byte on. Behind them comes the end,
or one error because a message was begun that the bytes do not complete, and a reader that is asked
further has nothing more to say.
-/

namespace Av1Tiling.Sei

namespace Reader

/-- What `count` calls yield, one behind the other. -/
def calls : (count : Nat) → Reader → List (Option (Except Error Message))
  | 0, _ => []
  | count + 1, reader =>
    match next reader with
    | none => none :: calls count reader
    | some (item, behind) => some item :: calls count behind

end Reader

namespace Message

/-- The bytes of `run` stand for `sum`: they add up to it, and all of them are 255 but the last. -/
def Sums (run : Bytes) (sum : Nat) : Prop :=
  ∃ full last, run = List.replicate full 255 ++ [last] ∧ last ≠ 255 ∧ sum = 255 * full + last.toNat

/-- What a sum counts as. -/
def capped (sum : Nat) : Nat :=
  min sum maxNumber

/-- The message is made of exactly the bytes `span`: a run for its type, a run for its size and as
    many bytes as its size counts. -/
def Framed (count : Nat → Nat) (message : Message) (span : Bytes) : Prop :=
  ∃ typeRun typeSum sizeRun sizeSum, Sums typeRun typeSum ∧ message.type = count typeSum ∧
    Sums sizeRun sizeSum ∧ message.payload.length = count sizeSum ∧
      span = typeRun ++ (sizeRun ++ message.payload)

/-- The message stands in `data` from `start` to `stop`. -/
structure Spans (count : Nat → Nat) (data : Bytes) (start : Nat) (message : Message) (stop : Nat) :
    Prop where
  offset : message.offset = start
  inside : stop ≤ data.length
  framed : message.Framed count (data.slice start (stop - start))

/-- The messages follow on each other in `data` from `start` to `stop`. -/
def Consecutive (count : Nat → Nat) (data : Bytes) : (start : Nat) → List Message → (stop : Nat) → Prop
  | start, [], stop => start = stop
  | start, message :: rest, stop =>
    ∃ between, message.Spans count data start between ∧ Consecutive count data between rest stop

/-- There are more messages, but the first of them is not complete. -/
def BrokenOff (bytes : Bytes) : Prop :=
  more bytes = true ∧ ∀ message span, span <+: bytes → ¬ Framed capped message span

/-- The items are the messages, and behind them comes the end. Or behind them a message breaks off,
    and the last item says where how much is missing. -/
def Closes (data : Bytes) (messages : List Message) (stop : Nat)
    (items : List (Except Error Message)) : Prop :=
  (items = messages.map .ok ∧ (data.drop stop = [] ∨ ∃ zeros, data.drop stop = ending zeros)) ∨
    ∃ place needed available,
      items = messages.map .ok ++ [.error (.truncated place needed available)] ∧
        BrokenOff (data.drop stop) ∧ stop ≤ place ∧ place + available = data.length ∧
          available < needed

/-! ## Numbers -/

theorem Sums.length_pos {run : Bytes} {sum : Nat} (sums : Sums run sum) : 0 < run.length := by
  obtain ⟨full, last, rfl, -, -⟩ := sums
  simp

theorem Sums.le {run : Bytes} {sum : Nat} (sums : Sums run sum) : sum ≤ 255 * run.length := by
  obtain ⟨full, last, rfl, -, rfl⟩ := sums
  have small := last.toNat_lt
  simp only [List.length_append, List.length_replicate, List.length_singleton]
  omega

theorem readNumber_of_sums {run : Bytes} {number : Nat} (sums : Sums run number) (sum offset : Nat)
    (rest : Bytes) : readNumber sum offset (run ++ rest) =
      .ok (capped (sum + number), offset + run.length, rest) := by
  obtain ⟨full, last, rfl, below, rfl⟩ := sums
  induction full generalizing sum offset with
  | zero =>
    simp only [List.replicate_zero, List.nil_append, List.singleton_append, readNumber,
      if_neg below, capped, Nat.mul_zero, Nat.zero_add, List.length_singleton]
  | succ full ih =>
    have value : (255 : UInt8).toNat = 255 := rfl
    rw [List.replicate_succ, List.cons_append, List.cons_append, readNumber, if_pos rfl, ih, value]
    simp only [capped, List.length_cons, Except.ok.injEq, Prod.mk.injEq, and_true]
    omega

/-- Where no byte ends the run, all bytes are used up and one more is needed. -/
theorem readNumber_replicate (count sum offset : Nat) :
    readNumber sum offset (List.replicate count 255) = .error (.truncated (offset + count) 1 0) := by
  induction count generalizing sum offset with
  | zero => rfl
  | succ count ih => rw [List.replicate_succ, readNumber, if_pos rfl, ih, Nat.add_right_comm,
      Nat.add_assoc]

/-- Bytes begin with a run, or are an unfinished one. -/
theorem exists_sums (bytes : Bytes) :
    (∃ run sum rest, Sums run sum ∧ bytes = run ++ rest) ∨
      ∃ count, bytes = List.replicate count 255 := by
  induction bytes with
  | nil => exact .inr ⟨0, rfl⟩
  | cons byte rest ih =>
    by_cases full : byte = 255
    · subst full
      rcases ih with ⟨_, _, rest, ⟨full, last, rfl, below, rfl⟩, rfl⟩ | ⟨count, rfl⟩
      · exact .inl ⟨_, _, rest, ⟨full + 1, last, rfl, below, rfl⟩, rfl⟩
      · exact .inr ⟨count + 1, rfl⟩
    · exact .inl ⟨[byte], _, rest, ⟨0, byte, rfl, full, rfl⟩, rfl⟩

/-- A number is read from the run that the bytes begin with, or they end before the run does. -/
theorem readNumber_cases (offset : Nat) (bytes : Bytes) :
    (∃ run sum rest, Sums run sum ∧ bytes = run ++ rest ∧
      readNumber 0 offset bytes = .ok (capped sum, offset + run.length, rest)) ∨
      readNumber 0 offset bytes = .error (.truncated (offset + bytes.length) 1 0) := by
  rcases exists_sums bytes with ⟨run, sum, rest, sums, rfl⟩ | ⟨count, rfl⟩
  · refine .inl ⟨run, sum, rest, sums, rfl, ?_⟩
    rw [readNumber_of_sums sums, Nat.zero_add]
  · right
    rw [readNumber_replicate, List.length_replicate]

/-! ## One message -/

theorem Framed.two_le_length {count : Nat → Nat} {message : Message} {span : Bytes}
    (framed : message.Framed count span) : 2 ≤ span.length := by
  obtain ⟨typeRun, typeSum, sizeRun, sizeSum, typed, -, sized, -, rfl⟩ := framed
  have type := typed.length_pos
  have size := sized.length_pos
  simp only [List.length_append]
  omega

/-- In a short span no sum is cut off. -/
theorem Framed.exact {message : Message} {span : Bytes} (framed : message.Framed capped span)
    (short : span.length < 2 ^ 24) : message.Framed id span := by
  obtain ⟨typeRun, typeSum, sizeRun, sizeSum, typed, type, sized, size, rfl⟩ := framed
  have typeLe := typed.le
  have sizeLe := sized.le
  simp only [List.length_append] at short
  refine ⟨typeRun, typeSum, sizeRun, sizeSum, typed, ?_, sized, ?_, rfl⟩
  · rw [type, capped, maxNumber, id]
    omega
  · rw [size, capped, maxNumber, id]
    omega

/-- A message is read from its bytes, whatever follows them. -/
theorem read_of_framed {message : Message} {span : Bytes} (framed : message.Framed capped span)
    (offset : Nat) (rest : Bytes) :
    read offset (span ++ rest) = .ok (message.placedAt offset, offset + span.length, rest) := by
  obtain ⟨typeRun, typeSum, sizeRun, sizeSum, typed, type, sized, size, rfl⟩ := framed
  have first := readNumber_of_sums typed 0 offset (sizeRun ++ (message.payload ++ rest))
  have second := readNumber_of_sums sized 0 (offset + typeRun.length) (message.payload ++ rest)
  rw [Nat.zero_add, ← type] at first
  rw [Nat.zero_add, ← size] at second
  have enough : ¬ (message.payload ++ rest).length < message.payload.length := by simp
  have stop : offset + (typeRun ++ (sizeRun ++ message.payload)).length =
      offset + typeRun.length + sizeRun.length + message.payload.length := by
    simp only [List.length_append, Nat.add_assoc]
  rw [stop, List.append_assoc, List.append_assoc, read, Checked.bind_of_ok first]
  simp only [Checked.bind_of_ok second, if_neg enough, List.take_left, List.drop_left]
  rfl

/-- Reading finds the bytes of a message, or fails because the bytes end too early. -/
theorem read_cases (offset : Nat) (bytes : Bytes) :
    (∃ message span rest, bytes = span ++ rest ∧ Framed capped message span ∧
      message.offset = offset ∧ read offset bytes = .ok (message, offset + span.length, rest)) ∨
      ∃ place needed available, read offset bytes = .error (.truncated place needed available) ∧
        offset ≤ place ∧ place + available = offset + bytes.length ∧ available < needed := by
  rcases readNumber_cases offset bytes with ⟨typeRun, typeSum, behindType, typed, rfl, first⟩ | first
  · rcases readNumber_cases (offset + typeRun.length) behindType with
      ⟨sizeRun, sizeSum, rest, sized, rfl, second⟩ | second
    · by_cases cut : rest.length < capped sizeSum
      · refine .inr ⟨offset + typeRun.length + sizeRun.length, capped sizeSum, rest.length, ?_, ?_, ?_,
          cut⟩
        · rw [read, Checked.bind_of_ok first]
          simp only [Checked.bind_of_ok second, if_pos cut]
          rfl
        · omega
        · simp only [List.length_append]
          omega
      · let message : Message := ⟨capped typeSum, offset, rest.take (capped sizeSum)⟩
        have whole : message.payload.length = capped sizeSum := by
          rw [List.length_take]
          omega
        have framed : message.Framed capped (typeRun ++ (sizeRun ++ message.payload)) :=
          ⟨typeRun, typeSum, sizeRun, sizeSum, typed, rfl, sized, whole, rfl⟩
        have split : typeRun ++ (sizeRun ++ rest) =
            typeRun ++ (sizeRun ++ message.payload) ++ rest.drop (capped sizeSum) := by
          simp only [message, List.append_assoc, List.take_append_drop]
        refine .inl ⟨message, _, _, split, framed, rfl, ?_⟩
        rw [split]
        exact read_of_framed framed offset _
    · refine .inr ⟨offset + typeRun.length + behindType.length, 1, 0, ?_, ?_, ?_, Nat.zero_lt_one⟩
      · rw [read, Checked.bind_of_ok first]
        simp only [second]
        rfl
      · omega
      · simp only [List.length_append]
        omega
  · refine .inr ⟨offset + bytes.length, 1, 0, ?_, Nat.le_add_right .., rfl, Nat.zero_lt_one⟩
    rw [read, first]
    rfl

/-- A message that is read stands where it is read, and what is not read stands behind it. -/
theorem read_spans {data rest : Bytes} {start stop : Nat} {message : Message}
    (inside : start ≤ data.length)
    (run : read start (data.drop start) = .ok (message, stop, rest)) :
    message.Spans capped data start stop ∧ start + 2 ≤ stop ∧ rest = data.drop stop := by
  rcases read_cases start (data.drop start) with
    ⟨found, span, behind, split, framed, offset, success⟩ | ⟨place, needed, available, failure, -⟩
  · rw [run] at success
    cases success
    have length := congrArg List.length split
    rw [List.length_drop, List.length_append] at length
    have slice : data.slice start span.length = span := by
      rw [Bytes.slice, split, List.take_left]
    have two := framed.two_le_length
    refine ⟨⟨offset, by omega, ?_⟩, by omega, ?_⟩
    · rwa [Nat.add_sub_cancel_left, slice]
    · rw [← List.drop_drop, split, List.drop_left]
  · rw [run] at failure
    cases failure

/-- A message that cannot be read breaks off. -/
theorem read_breaksOff {data : Bytes} {start : Nat} {cause : Error} (inside : start ≤ data.length)
    (run : read start (data.drop start) = .error cause) :
    (∀ message span, span <+: data.drop start → ¬ Framed capped message span) ∧
      ∃ place needed available, cause = .truncated place needed available ∧ start ≤ place ∧
        place + available = data.length ∧ available < needed := by
  constructor
  · rintro message span ⟨rest, split⟩ framed
    rw [← split, read_of_framed framed] at run
    cases run
  · rcases read_cases start (data.drop start) with
      ⟨message, span, rest, -, -, -, success⟩ | ⟨place, needed, available, failure, onward, sum, less⟩
    · rw [run] at success
      cases success
    · rw [run] at failure
      cases failure
      rw [List.length_drop] at sum
      exact ⟨place, needed, available, rfl, onward, by omega, less⟩

/-! ## All messages -/

theorem Consecutive.exact {data : Bytes} {start stop : Nat} {messages : List Message}
    (consecutive : Consecutive capped data start messages stop) (short : data.length < 2 ^ 24) :
    Consecutive id data start messages stop := by
  induction messages generalizing start with
  | nil => exact consecutive
  | cons message rest ih =>
    obtain ⟨between, ⟨offset, inside, framed⟩, others⟩ := consecutive
    refine ⟨between, ⟨offset, inside, framed.exact (Nat.lt_of_le_of_lt ?_ short)⟩, ih others⟩
    simp only [Bytes.slice, List.length_take, List.length_drop]
    omega

theorem readMany_consecutive {count start : Nat} {data : Bytes} (inside : start ≤ data.length)
    (enough : data.length ≤ start + count) :
    ∃ messages stop, Consecutive capped data start messages stop ∧
      start + 2 * messages.length ≤ stop ∧ stop ≤ data.length ∧
        Closes data messages stop (readMany count start (data.drop start)) := by
  induction count generalizing start with
  | zero =>
    have none : data.drop start = [] := List.drop_eq_nil_of_le enough
    exact ⟨[], start, rfl, Nat.le_refl _, inside, .inl ⟨rfl, .inl none⟩⟩
  | succ count ih =>
    cases left : more (data.drop start) with
    | false =>
      refine ⟨[], start, rfl, Nat.le_refl _, inside, .inl ⟨?_, more_eq_false_iff.1 left⟩⟩
      rw [readMany, left]
      rfl
    | true =>
      rw [readMany, if_pos left]
      cases run : read start (data.drop start) with
      | error cause =>
        obtain ⟨short, place, needed, available, rfl, onward, sum, less⟩ := read_breaksOff inside run
        exact ⟨[], start, rfl, Nat.le_refl _, inside,
          .inr ⟨place, needed, available, rfl, ⟨left, short⟩, onward, sum, less⟩⟩
      | ok found =>
        obtain ⟨message, between, rest⟩ := found
        obtain ⟨spans, taken, rfl⟩ := read_spans inside run
        obtain ⟨messages, stop, others, few, within, closes⟩ := ih spans.inside (by omega)
        refine ⟨message :: messages, stop, ⟨between, spans, others⟩, ?_, within, ?_⟩
        · rw [List.length_cons]
          omega
        · rcases closes with ⟨items, last⟩ | ⟨place, needed, available, items, broken⟩
          · exact .inl ⟨by simp only [items, List.map_cons], last⟩
          · exact .inr ⟨place, needed, available,
              by simp only [items, List.map_cons, List.cons_append], broken⟩

end Message

namespace Reader

open Message

/-- The reader stands in its bytes, with at most `count` of them left. -/
structure Within (reader : Reader) (count : Nat) : Prop where
  inside : reader.cursor.pos ≤ reader.cursor.data.length
  enough : reader.cursor.data.length ≤ reader.cursor.pos + count

/-- What a reader still has to say. -/
def left (reader : Reader) (count : Nat) : List (Except Error Message) :=
  if reader.failed = true then [] else readMany count reader.cursor.pos reader.cursor.rest

/-- A call yields the first item that is left, or nothing where none is. -/
theorem next_cases {reader : Reader} {count : Nat} (within : reader.Within count) :
    (reader.next = none ∧ reader.left count = []) ∨
      ∃ item behind less, reader.next = some (item, behind) ∧ behind.Within less ∧
        reader.left count = item :: behind.left less := by
  obtain ⟨cursor, failed⟩ := reader
  have inside : cursor.pos ≤ cursor.data.length := within.inside
  have enough : cursor.data.length ≤ cursor.pos + count := within.enough
  cases failed with
  | true => exact .inl ⟨if_pos (.inl rfl), if_pos rfl⟩
  | false =>
    have left_eq (count : Nat) (cursor : Cursor) :
        (⟨cursor, false⟩ : Reader).left count = readMany count cursor.pos cursor.rest := rfl
    cases more : Message.more cursor.rest with
    | false =>
      refine .inl ⟨if_pos (.inr more), ?_⟩
      cases count with
      | zero => rfl
      | succ count => simp [left_eq, readMany, more]
    | true =>
      have asked : ¬((false : Bool) = true ∨ Message.more cursor.rest = false) := by simp [more]
      cases count with
      | zero =>
        have none : cursor.rest = [] := List.drop_eq_nil_of_le enough
        rw [none] at more
        cases more
      | succ count =>
        right
        rw [left_eq, readMany, if_pos more, next, if_neg asked]
        cases run : Message.read cursor.pos cursor.rest with
        | error cause => exact ⟨_, _, count + 1, rfl, ⟨inside, enough⟩, rfl⟩
        | ok found =>
          obtain ⟨message, stop, rest⟩ := found
          obtain ⟨spans, taken, rfl⟩ := read_spans inside run
          have less : cursor.data.length ≤ stop + count := by omega
          exact ⟨_, ⟨cursor.seek stop, false⟩, count, rfl, ⟨spans.inside, less⟩, rfl⟩

/-- However often a reader is called, it says what it has to say and then nothing. -/
theorem calls_eq {reader : Reader} {count : Nat} (within : reader.Within count) (times : Nat) :
    reader.calls times =
      ((reader.left count).map some ++ List.replicate times none).take times := by
  induction times generalizing reader count with
  | zero => rfl
  | succ times ih =>
    rcases next_cases within with ⟨none, nothing⟩ | ⟨item, behind, less, called, onward, items⟩
    · have again := ih within
      rw [nothing] at again ⊢
      simp only [calls, none, again]
      simp [List.replicate_succ]
    · let row : List (Option (Except Error Message)) :=
        (behind.left less).map some ++ List.replicate times none
      have room : times ≤ row.length := by
        rw [List.length_append, List.length_replicate]
        exact Nat.le_add_left times _
      simp only [calls, called, ih onward, items, List.map_cons, List.cons_append,
        List.take_succ_cons]
      rw [List.replicate_succ', ← List.append_assoc, List.take_append_of_le_length room]

/-- All bytes are accounted for. However often a reader of `bytes` is called, it yields the messages
    that are read and then nothing. They follow on each other from the first byte on and stay in the
    bytes, each with a run of bytes for its type, a run for its size and a payload of as many bytes as
    its size counts, which is what the run adds up to where the bytes are few. Behind the messages are
    the end and no error, or a message that breaks off and one error, which is the last item. -/
theorem calls_consecutive (bytes : Bytes) :
    (∀ times, (ofBytes bytes).calls times =
      ((readAll bytes).map some ++ List.replicate times none).take times) ∧
      ∃ messages stop, 2 * messages.length ≤ stop ∧ stop ≤ bytes.length ∧
        Consecutive capped bytes 0 messages stop ∧
          (bytes.length < 2 ^ 24 → Consecutive id bytes 0 messages stop) ∧
            Closes bytes messages stop (readAll bytes) := by
  constructor
  · exact calls_eq ⟨Nat.zero_le _, Nat.le_add_left _ _⟩
  · obtain ⟨messages, stop, consecutive, few, inside, closes⟩ :=
      readMany_consecutive (Nat.zero_le bytes.length) (Nat.le_add_left bytes.length 0)
    rw [Nat.zero_add] at few
    exact ⟨messages, stop, few, inside, consecutive, consecutive.exact, closes⟩

/-- A message that starts like the end, and a type that does not end. -/
def brokenOff : Bytes := [0x80, 0x01, 0x00, 0xFF, 0xFF]

theorem calls_consecutive_broken_off :
    readAll brokenOff = [.ok ⟨128, 0, [0x00]⟩, .error (.truncated 5 1 0)] ∧
      (ofBytes brokenOff).calls 4 =
        [some (.ok ⟨128, 0, [0x00]⟩), some (.error (.truncated 5 1 0)), none, none] ∧
      brokenOff.length < 2 ^ 24 ∧
      ∃ messages stop, Consecutive id brokenOff 0 messages stop ∧
        Closes brokenOff messages stop (readAll brokenOff) := by
  have read : readAll brokenOff = [.ok ⟨128, 0, [0x00]⟩, .error (.truncated 5 1 0)] := by decide
  have short : brokenOff.length < 2 ^ 24 := by decide
  obtain ⟨calls, messages, stop, -, -, -, consecutive, closes⟩ := calls_consecutive brokenOff
  refine ⟨read, ?_, short, messages, stop, consecutive short, closes⟩
  rw [calls, read]
  rfl

end Reader

end Av1Tiling.Sei
