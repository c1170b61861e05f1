import Av1Tiling.Proofs.Code.RoundTrip
import Av1Tiling.Proofs.Field

/-!
# Elements that are read back

Fields are built with the full range of their code and may be narrowed from there (`Built`). What
was written for an element of such a field is read as the element, and so is a list of elements, one
behind the other: each of them from exactly the bits that it was written as.
-/

namespace Av1Tiling.Field

open Write

/-- A field of some code with the whole range of the code, or with some of its values. -/
inductive Built : Field → Prop
  | bits (name : String) (count : Nat) : Built (.bits name count)
  | flag (name : String) : Built (.flag name)
  | littleEndian (name : String) (size : Nat) : Built (.littleEndian name size)
  | leb128 (name : String) : Built (.leb128 name)
  | uvlc (name : String) : Built (.uvlc name)
  | nonSymmetric (name : String) (bound : Nat) : Built (.nonSymmetric name bound)
  | increment (name : String) (min max : Nat) : Built (.increment name min max)
  | subexp (name : String) (bound : Nat) : Built (.subexp name bound)
  | narrowed {field : Field} (built : Built field) {min max : Nat} (least : field.min ≤ min)
      (greatest : max ≤ field.max) : Built (field.withRange min max)

/-- Where the code does not itself refuse a value, the range is no wider than the code. -/
def Fits (field : Field) : Prop :=
  match field.coding with
  | .bits count => field.max ≤ maxOfBits count
  | .leb128 | .uvlc => field.max ≤ maxWord
  | _ => True

theorem Fits.withRange {field : Field} (fits : field.Fits) {min max : Nat}
    (greatest : max ≤ field.max) : (field.withRange min max).Fits := by
  unfold Fits at fits ⊢
  show match field.coding with
    | .bits count => max ≤ maxOfBits count
    | .leb128 | .uvlc => max ≤ maxWord
    | _ => True
  cases coding : field.coding with
  | bits count =>
    rw [coding] at fits
    exact Nat.le_trans greatest fits
  | leb128 =>
    rw [coding] at fits
    exact Nat.le_trans greatest fits
  | uvlc =>
    rw [coding] at fits
    exact Nat.le_trans greatest fits
  | littleEndian size => trivial
  | nonSymmetric bound => trivial
  | increment => trivial
  | subexp bound => trivial

theorem Built.fits {field : Field} (built : Built field) : field.Fits := by
  induction built with
  | bits name count => exact Nat.le_refl _
  | flag name => exact Nat.le_refl _
  | littleEndian name size => trivial
  | leb128 name => exact Nat.le_refl _
  | uvlc name => exact Nat.le_refl _
  | nonSymmetric name bound => trivial
  | increment name min max => trivial
  | subexp name bound => trivial
  | narrowed _ _ greatest ih => exact ih.withRange greatest

theorem lt_of_le_maxOfBits {count value : Nat} (fits : value ≤ maxOfBits count) :
    value < 2 ^ count := by
  rw [maxOfBits] at fits
  split at fits
  next wide =>
    have word : 2 ^ 32 ≤ 2 ^ count := Nat.pow_le_pow_right (by decide) wide
    rw [maxWord] at fits
    omega
  next narrow =>
    have positive := Nat.two_pow_pos count
    omega

theorem writeCode_readBack {field : Field} (fits : field.Fits) {value : Nat}
    (legal : value ≤ field.max) : ReadBack (field.writeCode value) field.readCode value := by
  unfold Fits at fits
  unfold writeCode readCode
  cases coding : field.coding with
  | bits count =>
    rw [coding] at fits
    exact bits_readBack (lt_of_le_maxOfBits (Nat.le_trans legal fits))
  | littleEndian size => exact LittleEndian.write_readBack value size
  | leb128 =>
    rw [coding] at fits
    -- the number of bytes that were written is left aside
    have back := Leb128.write_readBack (Nat.le_trans legal fits)
    refine (Grows.bind back fun _ _ _ _ => Grows.pure ()).mono ?_
    rintro _ ⟨more, _, yields, rfl, rfl⟩ pos
    rw [List.append_nil]
    exact yields pos
  | uvlc =>
    rw [coding] at fits
    exact Uvlc.write_readBack (Nat.le_trans legal fits)
  | nonSymmetric bound => exact NonSymmetric.write_readBack value bound
  | increment => exact Increment.write_readBack value field.min field.max
  | subexp bound => exact Subexp.write_readBack value bound

theorem write_readBack {field : Field} (built : field.Built) (value : Nat) :
    ReadBack (field.write value) field.read value := by
  refine Grows.stays_bind (fun _ _ _ run => (Step.lift_eq_ok.1 run).2) fun _ _ _ run => ?_
  have checked : field.check value = .ok () := (Step.lift_eq_ok.1 run).1
  refine (writeCode_readBack built.fits (check_eq_ok.1 checked).2).map fun pos => ?_
  rw [Step.lift_bind checked]
  exact .pure value pos

/-! ## Lists of elements -/

/-- Writes elements one behind the other. -/
def writeAll (items : List (Field × Nat)) : Write Unit :=
  items.forM fun item => item.1.write item.2

/-- Reads elements one behind the other. -/
def readAll (fields : List Field) : Read (List Nat) :=
  fields.mapM read

theorem writeAll_cons (item : Field × Nat) (items : List (Field × Nat)) :
    writeAll (item :: items) = item.1.write item.2 >>= fun _ => writeAll items :=
  rfl

theorem readAll_cons (field : Field) (fields : List Field) :
    readAll (field :: fields) = field.read >>= fun value =>
      readAll fields >>= fun values => pure (value :: values) :=
  List.mapM_cons

theorem readAll_cons_yields {field : Field} {fields : List Field} {value pos : Nat}
    {values : List Nat} {code codes : Bits} (first : field.read.Yields pos code value)
    (rest : (readAll fields).Yields (pos + code.length) codes values) :
    (readAll (field :: fields)).Yields pos (code ++ codes) (value :: values) := by
  rw [readAll_cons]
  refine first.bind ?_
  rw [← List.append_nil codes]
  exact rest.bind (.pure _ _)

/-- Each element of a list that was written has a code of its own: so much of the writer makes up
    the first `count` of them, and the same bits are read, at any place and whatever follows them, as
    these elements. -/
theorem writeAll_reads_back {items : List (Field × Nat)} (built : ∀ item ∈ items, item.1.Built)
    {writer behind : BitWriter} (tight : writer.Tight)
    (run : writeAll items writer = .ok () behind) :
    ∃ codes : List Bits, codes.length = items.length ∧ ∀ count ≤ items.length,
      ∃ between, writeAll (items.take count) writer = .ok () between ∧
        writer.Extends (codes.take count).flatten between ∧
        ∀ pos, (readAll ((items.take count).map Prod.fst)).Yields pos (codes.take count).flatten
          ((items.take count).map Prod.snd) := by
  induction items generalizing writer with
  | nil =>
    refine ⟨[], rfl, fun count le => ?_⟩
    rw [Nat.le_zero.1 le]
    exact ⟨writer, rfl, .refl tight.pending, fun pos => .pure [] pos⟩
  | cons item rest ih =>
    obtain ⟨_, next, first, run⟩ := Step.bind_eq_ok.1 run
    obtain ⟨tightNext, code, yields, extends_⟩ :=
      write_readBack (built item List.mem_cons_self) item.2 writer () next tight first
    obtain ⟨codes, same, each⟩ := ih (fun item found => built item (.tail _ found)) tightNext run
    refine ⟨code :: codes, congrArg (· + 1) same, fun count le => ?_⟩
    cases count with
    | zero => exact ⟨writer, rfl, .refl tight.pending, fun pos => .pure [] pos⟩
    | succ count =>
      obtain ⟨between, later, onward, again⟩ := each count (Nat.le_of_succ_le_succ le)
      refine ⟨between, ?_, extends_.trans onward, fun pos => ?_⟩
      · rw [List.take_succ_cons, writeAll_cons, Step.bind_of_ok first]
        exact later
      · exact readAll_cons_yields (yields pos) (again _)

/-- An element of each code. Two stand for values at the end of what their code can say. -/
def ofEachCode : List (Field × Nat) := [
  ((bits "part" 5).withRange 3 20, 17),
  (flag "present", 1),
  (littleEndian "checksum" 2, 0xBEEF),
  (leb128 "size", 300),
  (uvlc "ticks", 2 ^ 32 - 1),
  (nonSymmetric "width" 11, 10),
  (increment "log2" 1 4, 4),
  (subexp "delta" 300, 255)]

/-- Behind three bits of a byte, the first element no longer stands in one byte. -/
theorem writeAll_reads_back_each_code :
    (∀ item ∈ ofEachCode, item.1.Built) ∧
      (⟨.empty 16, [true, false, true], 3⟩ : BitWriter).Tight ∧
      ∃ behind, writeAll ofEachCode ⟨.empty 16, [true, false, true], 3⟩ = .ok () behind ∧
        ∃ codes : List Bits, codes.length = 8 ∧
          (⟨.empty 16, [true, false, true], 3⟩ : BitWriter).Extends codes.flatten behind ∧
          (readAll (ofEachCode.map Prod.fst)).Yields 3 codes.flatten (ofEachCode.map Prod.snd) := by
  have built : ∀ item ∈ ofEachCode, item.1.Built := by
    simp only [ofEachCode, List.forall_mem_cons]
    refine ⟨.narrowed (.bits _ _) (by decide) (by decide), .flag _, .littleEndian _ _, .leb128 _,
      .uvlc _, .nonSymmetric _ _, .increment _ _ _, .subexp _ _, ?_⟩
    rintro _ ⟨⟩
  have tight : (⟨.empty 16, [true, false, true], 3⟩ : BitWriter).Tight := ⟨by decide, by decide⟩
  obtain ⟨_, behind, run, -⟩ := (by decide +kernel : Step.Succeeds (fun _ _ => True)
    (writeAll ofEachCode ⟨.empty 16, [true, false, true], 3⟩)).eq_ok
  obtain ⟨codes, same, each⟩ := writeAll_reads_back built tight run
  obtain ⟨between, again, extends_, yields⟩ := each 8 (by decide)
  have whole : codes.take 8 = codes := List.take_of_length_le (Nat.le_of_eq same)
  rw [whole] at extends_ yields
  have end_eq : behind = between := (EStateM.Result.ok.inj (run.symm.trans again)).2
  rw [← end_eq] at extends_
  exact ⟨built, tight, behind, run, codes, same, extends_, yields 3⟩

end Av1Tiling.Field
