import Av1Tiling.Proofs.Bits.Writing

/-!
# What a write has added

A write that succeeds leaves the bits that were there and has added some behind them (`Grows`),
whatever made it stop elsewhere. Nothing is said of a write that fails, so it does not matter
whether there was room.
-/

namespace Av1Tiling

/-- No byte has been refused, and the complete bytes are not too many. -/
structure BitWriter.Tight (writer : BitWriter) : Prop where
  pending : writer.pending.length < 8
  size : writer.buffer.size ≤ writer.buffer.capacity

theorem BitWriter.tight_empty (capacity : Nat) : (empty capacity).Tight :=
  ⟨Nat.zero_lt_succ 7, Nat.zero_le capacity⟩

namespace Write

variable {ε α β γ : Type}

/-- Where `step` succeeds, it has added some bits with `adds`. -/
def Grows (step : EStateM ε BitWriter α) (adds : Bits → Prop) : Prop :=
  ∀ writer value behind, writer.Tight → step writer = .ok value behind →
    behind.Tight ∧ ∃ more, adds more ∧ writer.Extends more behind

/-- These are the bits that `step` has added to some writer. -/
def AddedBy (step : EStateM ε BitWriter α) (bits : Bits) : Prop :=
  ∃ writer value behind, step writer = .ok value behind ∧ writer.Extends bits behind

/-- Some bits, whatever they are. -/
def Any (_ : Bits) : Prop :=
  True

namespace Grows

variable {step other : EStateM ε BitWriter α} {adds more : Bits → Prop}

theorem mono (grows : Grows step adds) (weaker : ∀ bits, adds bits → more bits) :
    Grows step more := by
  intro writer value behind tight run
  obtain ⟨tight, bits, added, extends_⟩ := grows writer value behind tight run
  exact ⟨tight, bits, weaker bits added, extends_⟩

theorem any (grows : Grows step adds) : Grows step Any :=
  grows.mono fun _ _ => trivial

/-- What was added, was added by this step. -/
theorem addedBy (grows : Grows step adds) :
    Grows step fun bits => adds bits ∧ AddedBy step bits := by
  intro writer value behind tight run
  obtain ⟨tight, bits, added, extends_⟩ := grows writer value behind tight run
  exact ⟨tight, bits, ⟨added, writer, value, behind, run, extends_⟩, extends_⟩

/-- A step that leaves the writer alone. -/
theorem stays (kept : ∀ writer value behind, step writer = .ok value behind → behind = writer) :
    Grows step (· = []) := by
  intro writer value behind tight run
  obtain rfl := kept writer value behind run
  exact ⟨tight, [], rfl, .refl tight.pending⟩

protected theorem pure (value : α) : Grows (pure value : EStateM ε BitWriter α) (· = []) :=
  stays fun writer _ _ run => by
    cases run
    rfl

/-- A step that always fails adds what one likes. -/
protected theorem throw (cause : ε) : Grows (throw cause : EStateM ε BitWriter α) adds := by
  intro writer value behind _ run
  cases run

theorem throw_bind (cause : ε) (next : α → EStateM ε BitWriter β) :
    Grows (throw cause >>= next) adds := by
  intro writer value behind _ run
  cases run

/-- What follows goes by the values that the first step yields. -/
protected theorem bind {next : α → EStateM ε BitWriter β} (first : Grows step adds)
    (second : ∀ writer value behind, step writer = .ok value behind → Grows (next value) more) :
    Grows (step >>= next) fun bits => ∃ u v, adds u ∧ more v ∧ bits = u ++ v := by
  intro writer result behind tight run
  obtain ⟨value, between, run₁, run₂⟩ := Step.bind_eq_ok.1 run
  obtain ⟨tight₁, u, added₁, extends₁⟩ := first _ _ _ tight run₁
  obtain ⟨tight₂, v, added₂, extends₂⟩ := second _ _ _ run₁ between result behind tight₁ run₂
  exact ⟨tight₂, u ++ v, ⟨u, v, added₁, added₂, rfl⟩, extends₁.trans extends₂⟩

theorem bind_any {next : α → EStateM ε BitWriter β} (first : Grows step adds)
    (second : ∀ value, Grows (next value) more) : Grows (step >>= next) Any :=
  (first.bind fun _ value _ _ => second value).any

/-- A first step that adds nothing may still say something of its value. -/
theorem stays_bind {next : α → EStateM ε BitWriter β}
    (kept : ∀ writer value behind, step writer = .ok value behind → behind = writer)
    (second : ∀ writer value behind, step writer = .ok value behind → Grows (next value) more) :
    Grows (step >>= next) more :=
  ((stays kept).bind second).mono fun bits ⟨u, v, empty, added, same⟩ => by
    rwa [same, empty]

theorem get_bind {next : BitWriter → EStateM ε BitWriter β}
    (each : ∀ state, Grows (next state) adds) :
    Grows (get >>= next) adds :=
  fun writer value behind tight run => each writer writer value behind tight run

protected theorem ite {p : Prop} [Decidable p] (first : p → Grows step adds)
    (second : ¬p → Grows other adds) : Grows (if p then step else other) adds := by
  by_cases chosen : p
  · rw [if_pos chosen]
    exact first chosen
  · rw [if_neg chosen]
    exact second chosen

/-- What a loop adds, item by item. -/
theorem forM {step : γ → EStateM ε BitWriter PUnit} {code : γ → Bits} (items : List γ)
    (each : ∀ item, Grows (step item) (· = code item)) :
    Grows (items.forM step) (· = items.flatMap code) := by
  induction items with
  | nil => exact .pure _
  | cons item rest ih =>
    refine ((each item).bind fun _ _ _ _ => ih).mono ?_
    rintro bits ⟨u, v, rfl, rfl, rfl⟩
    rfl

end Grows

/-- Where there is room, what is known to be added has been added. -/
theorem Appends.grown {step : EStateM ε BitWriter α} {bits : Bits} {value found : α}
    {writer behind : BitWriter} (appends : Appends step bits value)
    (room : writer.Room bits.length) (run : step writer = .ok found behind) :
    behind.Tight ∧ ∃ more, more = bits ∧ writer.Extends more behind := by
  obtain ⟨other, success, extends_⟩ := appends writer room
  rw [run] at success
  cases success
  have fits := room.fits
  have length := congrArg List.length extends_.bits
  rw [BitWriter.length_bits, List.length_append] at length
  have capacity := extends_.capacity
  exact ⟨⟨extends_.pending, by omega⟩, bits, rfl, extends_⟩

theorem refusal_eq_none_iff {buffer : BoundedBuffer} {count : Nat}
    (tight : buffer.size ≤ buffer.capacity) :
    buffer.refusal count = none ↔ buffer.size + count ≤ buffer.capacity := by
  rw [BoundedBuffer.refusal, BoundedBuffer.remaining]
  split
  next full =>
    constructor
    · rintro ⟨⟩
    · intro fits
      omega
  next => exact ⟨fun _ => by omega, fun _ => rfl⟩

theorem bit_grows (value : Bool) : Grows (bit value) (· = [value]) := by
  intro writer _ behind tight run
  refine (bit_appends value).grown ⟨tight.pending, ?_⟩ run
  have pending := tight.pending
  have size := tight.size
  rw [BitWriter.length_bits, List.length_singleton]
  by_cases last : writer.pending.length = 7
  · -- the byte that is completed has to be taken
    simp only [bit, if_pos last] at run
    cases taken : writer.buffer.refusal 1 with
    | some refused =>
      rw [taken] at run
      cases run
    | none =>
      have fits := (refusal_eq_none_iff size).1 taken
      omega
  · omega

theorem each_bit_grows (used : Bits) : Grows (used.forM bit) (· = used) := by
  have grows := Grows.forM used bit_grows
  rwa [List.flatMap_singleton'] at grows

theorem fill_grows (value : Bool) (count : Nat) :
    Grows (fill value count) (· = List.replicate count value) := by
  induction count with
  | zero => exact .pure _
  | succ count ih =>
    refine ((bit_grows value).bind fun _ _ _ _ => ih).mono ?_
    rintro bits ⟨u, v, rfl, rfl, rfl⟩
    rfl

/-- A number that was written has no more bits than can be written at once. -/
theorem bits_grows_narrow (value count : Nat) :
    Grows (bits value count) fun more => count ≤ 64 ∧ more = Bits.ofNat count value := by
  refine .ite (fun _ => .throw _) fun narrow => ?_
  exact (each_bit_grows _).mono fun more same => ⟨Nat.le_of_not_lt narrow, same⟩

theorem bits_grows (value count : Nat) : Grows (bits value count) (· = Bits.ofNat count value) :=
  (bits_grows_narrow value count).mono fun _ known => known.2

theorem bytes_grows (data : Bytes) : Grows (bytes data) (· = Bits.ofBytes data) := by
  intro writer _ behind tight run
  cases aligned : writer.aligned with
  | true =>
    refine (bytes_appends data).grown ⟨tight.pending, ?_⟩ run
    rw [bytes, Step.get_bind, aligned, if_pos rfl] at run
    obtain ⟨_, between, pushed, -⟩ := Step.bind_eq_ok.1 run
    rw [push] at pushed
    cases taken : writer.buffer.refusal data.length with
    | some refused =>
      rw [taken] at pushed
      cases pushed
    | none =>
      have fits := (refusal_eq_none_iff tight.size).1 taken
      have pending := tight.pending
      rw [BitWriter.length_bits, Bits.length_ofBytes]
      omega
  | false =>
    rw [bytes, Step.get_bind, aligned] at run
    exact Grows.forM data (fun byte => bits_grows byte.toNat 8) writer _ behind tight run

theorem align_grows : Grows align fun more => ∃ count < 8, more = List.replicate count false := by
  intro writer _ behind tight run
  -- this is where a byte that was refused would stand in the way
  rw [align, Step.get_bind, if_pos tight.pending] at run
  obtain ⟨tight, more, rfl, extends_⟩ := fill_grows false _ writer _ behind tight run
  exact ⟨tight, _, ⟨_, Nat.mod_lt _ (by decide), rfl⟩, extends_⟩

theorem copy_grows (source : Bytes) (start stop : Nat) : Grows (copy source start stop) Any := by
  rw [copy_eq]
  exact .ite (fun _ => .throw_bind _ _) fun _ => .get_bind fun writer =>
    .ite (fun _ => (bytes_grows _).any) fun _ => (each_bit_grows _).any

end Write

end Av1Tiling
