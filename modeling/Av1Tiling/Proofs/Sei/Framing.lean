import Av1Tiling.Proofs.Checked
import Av1Tiling.Sei.Message

/-!
# The framing of SEI messages

A number has exactly one run of bytes, and so has a message. What is written for some messages is
read as these messages, up to the stop byte, although the stop byte may also be the first byte of a
message and zeros may be a payload: behind a message there is always the stop byte itself. The other
way round, messages that were read are written as the bytes that they were read from.
-/

namespace Av1Tiling.Sei.Message

/-! ## Numbers -/

theorem encodeNumber_of_lt {number : Nat} (small : number < 255) :
    encodeNumber number = [UInt8.ofNat number] := by
  rw [encodeNumber, Nat.div_eq_of_lt small, Nat.mod_eq_of_lt small]
  rfl

theorem encodeNumber_add (number : Nat) :
    encodeNumber (number + 255) = 255 :: encodeNumber number := by
  rw [encodeNumber, Nat.add_div_right number (by decide), Nat.add_mod_right, List.replicate_succ]
  rfl

theorem encodeNumber_ne_nil (number : Nat) : encodeNumber number ≠ [] := by
  simp [encodeNumber]

/-- A sum goes on with the number whose run comes next. -/
theorem readNumber_encodeNumber {number sum : Nat} (fits : sum + number ≤ maxNumber) (offset : Nat)
    (rest : Bytes) : readNumber sum offset (encodeNumber number ++ rest) =
      .ok (sum + number, offset + (encodeNumber number).length, rest) := by
  induction number using Nat.strongRecOn generalizing sum offset with
  | ind number ih =>
    by_cases small : number < 255
    · have value : (UInt8.ofNat number).toNat = number := by
        simpa using Nat.mod_eq_of_lt (by omega : number < 256)
      have last : UInt8.ofNat number ≠ 255 := by
        intro same
        rw [same] at value
        simp at value
        omega
      rw [encodeNumber_of_lt small, List.singleton_append, readNumber, if_neg last, value,
        Nat.min_eq_left fits]
      rfl
    · obtain ⟨less, rfl⟩ : ∃ less, number = less + 255 := ⟨number - 255, by omega⟩
      have onward : sum + 255 + less ≤ maxNumber := by omega
      have here : min (sum + (255 : UInt8).toNat) maxNumber = sum + 255 :=
        Nat.min_eq_left (Nat.le_of_add_right_le onward)
      rw [encodeNumber_add, List.cons_append, readNumber, if_pos rfl, here,
        ih less (by omega) onward (offset + 1)]
      simp only [List.length_cons, Except.ok.injEq, Prod.mk.injEq, and_true]
      omega

/-- Where no sum is cut off, a number is read from its own run only. -/
theorem readNumber_sound {bytes rest : Bytes} {sum total offset next : Nat}
    (short : sum + 255 * bytes.length ≤ maxNumber)
    (run : readNumber sum offset bytes = .ok (total, next, rest)) :
    ∃ number, total = sum + number ∧ next = offset + (encodeNumber number).length ∧
      bytes = encodeNumber number ++ rest := by
  induction bytes generalizing sum offset with
  | nil => cases run
  | cons byte bytes ih =>
    rw [List.length_cons] at short
    have bound := byte.toNat_lt
    have here : min (sum + byte.toNat) maxNumber = sum + byte.toNat :=
      Nat.min_eq_left (by omega)
    rw [readNumber, here] at run
    by_cases full : byte = 255
    · subst full
      rw [if_pos rfl] at run
      have value : (255 : UInt8).toNat = 255 := rfl
      obtain ⟨number, rfl, rfl, rfl⟩ := ih (by omega) run
      refine ⟨number + 255, by omega, ?_, ?_⟩
      · rw [encodeNumber_add, List.length_cons]
        omega
      · rw [encodeNumber_add, List.cons_append]
    · rw [if_neg full] at run
      cases run
      have small : byte.toNat < 255 := by
        have other : byte.toNat ≠ 255 := fun same => full (UInt8.toNat_inj.1 same)
        omega
      refine ⟨byte.toNat, rfl, ?_, ?_⟩
      · rw [encodeNumber_of_lt small]
        rfl
      · rw [encodeNumber_of_lt small, UInt8.ofNat_toNat]
        rfl

/-! ## One message -/

/-- The numbers of the message fit their type. -/
structure Fits (message : Message) : Prop where
  type : message.type ≤ maxNumber
  size : message.payload.length ≤ maxNumber

/-- The message where it stands among others. -/
def placedAt (message : Message) (offset : Nat) : Message :=
  { message with offset }

theorem two_le_length_encode (message : Message) : 2 ≤ message.encode.length := by
  have type := List.length_pos_iff.2 (encodeNumber_ne_nil message.type)
  have size := List.length_pos_iff.2 (encodeNumber_ne_nil message.payload.length)
  simp only [encode, List.length_append]
  omega

theorem read_encode {message : Message} (fits : message.Fits) (offset : Nat) (rest : Bytes) :
    read offset (message.encode ++ rest) =
      .ok (message.placedAt offset, offset + message.encode.length, rest) := by
  have typeFits : 0 + message.type ≤ maxNumber := by simpa using fits.type
  have type := readNumber_encodeNumber typeFits offset
    (encodeNumber message.payload.length ++ (message.payload ++ rest))
  have sizeFits : 0 + message.payload.length ≤ maxNumber := by simpa using fits.size
  have size := readNumber_encodeNumber sizeFits
    (offset + (encodeNumber message.type).length) (message.payload ++ rest)
  have enough : ¬ (message.payload ++ rest).length < message.payload.length := by simp
  have start : offset + message.encode.length = offset + (encodeNumber message.type).length +
      (encodeNumber message.payload.length).length + message.payload.length := by
    simp only [encode, List.length_append, Nat.add_assoc]
  rw [start, encode, List.append_assoc, List.append_assoc, read, Checked.bind_of_ok type]
  simp only [Checked.bind_of_ok size, Nat.zero_add, if_neg enough, List.take_left, List.drop_left]
  rfl

/-- Where no sum is cut off, a message is read from its own bytes only. -/
theorem read_sound {bytes rest : Bytes} {message : Message} {offset next : Nat}
    (short : 255 * bytes.length ≤ maxNumber)
    (run : read offset bytes = .ok (message, next, rest)) : bytes = message.encode ++ rest := by
  obtain ⟨⟨type, sizeOffset, behindType⟩, first, sized⟩ := Checked.bind_eq_ok.1 run
  obtain ⟨⟨size, start, behindSize⟩, second, taken⟩ := Checked.bind_eq_ok.1 sized
  obtain ⟨type, rfl, -, rfl⟩ := readNumber_sound (by omega) first
  rw [List.length_append] at short
  obtain ⟨size, rfl, -, rfl⟩ := readNumber_sound (by omega) second
  simp only [Nat.zero_add] at taken
  by_cases cut : behindSize.length < size
  · rw [if_pos cut] at taken
    cases taken
  · rw [if_neg cut] at taken
    cases taken
    have whole : (behindSize.take size).length = size := by
      rw [List.length_take]
      omega
    simp only [encode, whole, List.append_assoc, List.take_append_drop]

/-! ## All messages -/

/-- What comes behind the messages: the stop byte, and zeros. -/
def ending (zeros : Nat) : Bytes :=
  stopByte :: List.replicate zeros 0

/-- No more messages follow where there is nothing left, or nothing but the end. -/
theorem more_eq_false_iff {bytes : Bytes} :
    more bytes = false ↔ bytes = [] ∨ ∃ zeros, bytes = ending zeros := by
  cases bytes with
  | nil => simp [more]
  | cons byte rest =>
    simp only [more, Bool.or_eq_false_iff, List.any_eq_false, bne_iff_ne, ne_eq,
      Decidable.not_not, bne_eq_false_iff_eq, reduceCtorEq, false_or, ending, List.cons.injEq]
    constructor
    · rintro ⟨stop, zeros⟩
      exact ⟨rest.length, stop, List.eq_replicate_iff.2 ⟨rfl, zeros⟩⟩
    · rintro ⟨zeros, stop, rfl⟩
      exact ⟨stop, fun byte found => List.eq_of_mem_replicate found⟩

/-- In front of the stop byte there is always more. -/
theorem more_encode (message : Message) {rest : Bytes} (stop : stopByte ∈ rest) :
    more (message.encode ++ rest) = true := by
  cases bytes : message.encode with
  | nil =>
    have length := message.two_le_length_encode
    rw [bytes] at length
    contradiction
  | cons byte others =>
    rw [List.cons_append, more, Bool.or_eq_true, List.any_eq_true]
    exact .inr ⟨stopByte, List.mem_append_right others stop, by decide⟩

/-- The messages where they stand, one behind the other. -/
def placed : (offset : Nat) → List Message → List Message
  | _, [] => []
  | offset, message :: rest =>
    message.placedAt offset :: placed (offset + message.encode.length) rest

theorem length_le_flatMap (messages : List Message) :
    messages.length ≤ (messages.flatMap encode).length := by
  induction messages with
  | nil => exact Nat.le_refl 0
  | cons message rest ih =>
    have taken := message.two_le_length_encode
    rw [List.length_cons, List.flatMap_cons, List.length_append]
    omega

theorem encodeAll_append (messages : List Message) (zeros : Nat) :
    encodeAll messages ++ List.replicate zeros 0 = messages.flatMap encode ++ ending zeros := by
  rw [encodeAll, List.append_assoc]
  rfl

/-- Messages are read up to the end, and nothing behind them. -/
theorem readMany_messages {messages : List Message} (fits : ∀ message ∈ messages, message.Fits)
    (zeros offset : Nat) {count : Nat} (enough : messages.length ≤ count) :
    readMany count offset (messages.flatMap encode ++ ending zeros) =
      (placed offset messages).map .ok := by
  induction messages generalizing offset count with
  | nil =>
    have done : more (ending zeros) = false := more_eq_false_iff.2 (.inr ⟨zeros, rfl⟩)
    cases count with
    | zero => rfl
    | succ count => simp [readMany, done, placed]
  | cons message rest ih =>
    obtain ⟨own, others⟩ := List.forall_mem_cons.1 fits
    cases count with
    | zero => contradiction
    | succ count =>
      have stop : stopByte ∈ rest.flatMap encode ++ ending zeros := by simp [ending]
      rw [List.flatMap_cons, List.append_assoc, readMany, if_pos (more_encode message stop),
        read_encode own offset]
      simp only [placed, List.map_cons]
      rw [ih others (offset + message.encode.length) (Nat.le_of_succ_le_succ enough)]

/-- Messages that were read to the end are all there is in front of it. -/
theorem readMany_sound {bytes : Bytes} {messages : List Message} {count offset : Nat}
    (short : 255 * bytes.length ≤ maxNumber) (enough : bytes.length ≤ count)
    (run : readMany count offset bytes = messages.map .ok) :
    ∃ last, bytes = messages.flatMap encode ++ last ∧ (last = [] ∨ ∃ zeros, last = ending zeros) := by
  induction count generalizing bytes messages offset with
  | zero =>
    cases messages with
    | nil => exact ⟨bytes, rfl, .inl (List.eq_nil_of_length_eq_zero (Nat.le_zero.1 enough))⟩
    | cons => cases run
  | succ count ih =>
    rw [readMany] at run
    cases left : more bytes with
    | false =>
      rw [left] at run
      cases messages with
      | nil => exact ⟨bytes, rfl, more_eq_false_iff.1 left⟩
      | cons => cases run
    | true =>
      rw [left, if_pos rfl] at run
      cases first : read offset bytes with
      | error cause =>
        rw [first] at run
        cases messages with
        | nil => cases run
        | cons => cases run
      | ok found =>
        obtain ⟨message, next, rest⟩ := found
        rw [first] at run
        cases messages with
        | nil => cases run
        | cons other messages =>
          simp only [List.map_cons, List.cons.injEq, Except.ok.injEq] at run
          obtain ⟨rfl, run⟩ := run
          -- the message has taken some bytes, so that there is count enough for the others
          obtain rfl := read_sound short first
          have taken := message.two_le_length_encode
          rw [List.length_append] at short enough
          obtain ⟨last, rfl, done⟩ := ih (by omega) (by omega) run
          exact ⟨last, by rw [List.flatMap_cons, List.append_assoc], done⟩

/-- Writing and reading are inverse to each other. Messages that were written are read as they are,
    each at the place where it was written, up to the stop byte and however many zeros follow it,
    and however often one asks for more. Bytes that were read without an error are those that the
    messages are written as, up to zeros behind the stop byte, or but for the stop byte. -/
theorem readAll_encodeAll :
    (∀ messages : List Message, (∀ message ∈ messages, message.Fits) → ∀ zeros count,
      (encodeAll messages ++ List.replicate zeros 0).length ≤ count →
        readMany count 0 (encodeAll messages ++ List.replicate zeros 0) =
          (placed 0 messages).map .ok) ∧
      ∀ (bytes : Bytes) (messages : List Message), bytes.length < 2 ^ 24 →
        readAll bytes = messages.map .ok →
          (∃ zeros, bytes = encodeAll messages ++ List.replicate zeros 0) ∨
            encodeAll messages = bytes ++ [stopByte] := by
  constructor
  · intro messages fits zeros count enough
    rw [encodeAll_append] at enough ⊢
    refine readMany_messages fits zeros 0 (Nat.le_trans ?_ enough)
    have few := length_le_flatMap messages
    rw [List.length_append]
    omega
  · intro bytes messages small run
    have short : 255 * bytes.length ≤ maxNumber := by
      rw [maxNumber]
      omega
    obtain ⟨last, rfl, rfl | ⟨zeros, rfl⟩⟩ := readMany_sound short (Nat.le_refl _) run
    · exact .inr (by rw [encodeAll, List.append_nil])
    · exact .inl ⟨zeros, (encodeAll_append messages zeros).symm⟩

/-- A message that starts like the end, and one of a long type whose payload are zeros. -/
def endLike : List Message := [⟨128, 0, []⟩, ⟨555, 0, [0, 0]⟩]

theorem readAll_encodeAll_end_like :
    ((∀ message ∈ endLike, message.Fits) ∧
      (encodeAll endLike ++ List.replicate 2 0).length ≤ 11 ∧
      readMany 11 0 (encodeAll endLike ++ List.replicate 2 0) = (placed 0 endLike).map .ok) ∧
    ([0x80, 0x01, 0x00] : Bytes).length < 2 ^ 24 ∧
      readAll [0x80, 0x01, 0x00] = [⟨128, 0, [0x00]⟩].map .ok ∧
      ((∃ zeros, [0x80, 0x01, 0x00] = encodeAll [⟨128, 0, [0x00]⟩] ++ List.replicate zeros 0) ∨
        encodeAll [⟨128, 0, [0x00]⟩] = [0x80, 0x01, 0x00] ++ [stopByte]) := by
  have fits : ∀ message ∈ endLike, message.Fits := by
    simp only [endLike, List.forall_mem_cons]
    exact ⟨⟨by decide, by decide⟩, ⟨by decide, by decide⟩, nofun⟩
  have length : (encodeAll endLike ++ List.replicate 2 0).length ≤ 11 := by decide
  have small : ([0x80, 0x01, 0x00] : Bytes).length < 2 ^ 24 := by decide
  have read : readAll [0x80, 0x01, 0x00] = [⟨128, 0, [0x00]⟩].map .ok := by decide
  obtain ⟨forth, back⟩ := readAll_encodeAll
  exact ⟨⟨fits, length, forth endLike fits 2 11 length⟩, small, read, back _ _ small read⟩

end Av1Tiling.Sei.Message
