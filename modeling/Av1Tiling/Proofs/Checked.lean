import Av1Tiling.Proofs.Steps

/-!
# Computations that may fail

A computation in steps succeeds where each of its steps does, and checked arithmetic succeeds with
the plain result, where that is in range. `Gives` says that a computation succeeds, and with what.
Behind an answer that is no fault whoever was answered goes on (`GoesOn`).
-/

namespace Av1Tiling

/-- There is something behind the answer. Only a fault leaves nothing. -/
def GoesOn {ε α : Type} (answer : Except (Failure ε) α) : Prop :=
  ∀ cause, answer ≠ .error (.fault cause)

namespace GoesOn

variable {ε α : Type}

protected theorem ok (value : α) : GoesOn (.ok value : Except (Failure ε) α) := nofun

protected theorem raised (error : ε) : GoesOn (.error (.raised error) : Except (Failure ε) α) :=
  nofun

theorem or_fault (answer : Except (Failure ε) α) :
    GoesOn answer ∨ ∃ cause, answer = .error (.fault cause) := by
  rcases answer with (error | cause) | value
  · exact .inl (.raised error)
  · exact .inr ⟨cause, rfl⟩
  · exact .inl (.ok value)

instance (answer : Except (Failure ε) α) : Decidable (GoesOn answer) :=
  match answer with
  | .ok value => .isTrue (.ok value)
  | .error (.raised error) => .isTrue (.raised error)
  | .error (.fault cause) => .isFalse fun goesOn => goesOn cause rfl

end GoesOn

namespace Checked

variable {ε α β : Type}

/-- It can be decided whether two computations come out alike. -/
instance instDecidableEqExcept [DecidableEq ε] [DecidableEq α] : DecidableEq (Except ε α)
  | .ok a, .ok b => decidable_of_iff (a = b) (Except.ok.injEq a b).symm.to_iff
  | .error a, .error b => decidable_of_iff (a = b) (Except.error.injEq a b).symm.to_iff
  | .ok _, .error _ => isFalse (by rintro ⟨⟩)
  | .error _, .ok _ => isFalse (by rintro ⟨⟩)

theorem bind_eq_ok {first : Except ε α} {next : α → Except ε β} {result : β} :
    (first >>= next) = .ok result ↔ ∃ value, first = .ok value ∧ next value = .ok result := by
  cases first with
  | error cause =>
    constructor
    · rintro ⟨⟩
    · rintro ⟨_, ⟨⟩, _⟩
  | ok value =>
    constructor
    · intro run
      exact ⟨value, rfl, run⟩
    · rintro ⟨_, ⟨⟩, run⟩
      exact run

theorem bind_eq_error {first : Except ε α} {next : α → Except ε β} {cause : ε} :
    (first >>= next) = .error cause ↔
      first = .error cause ∨ ∃ value, first = .ok value ∧ next value = .error cause := by
  cases first with
  | error other =>
    constructor
    · rintro ⟨⟩
      exact .inl rfl
    · rintro (⟨⟨⟩⟩ | ⟨_, ⟨⟩, _⟩)
      rfl
  | ok value =>
    constructor
    · intro run
      exact .inr ⟨value, rfl, run⟩
    · rintro (⟨⟨⟩⟩ | ⟨_, ⟨⟩, run⟩)
      exact run

theorem bind_of_ok {first : Except ε α} {next : α → Except ε β} {value : α}
    (success : first = .ok value) : (first >>= next) = next value := by
  rw [success]
  rfl

/-- A value that is checked is the one that is yielded. -/
theorem ite_eq_ok_iff {p : Prop} [Decidable p] {value found : α} {cause : ε} :
    (if p then .ok value else .error cause : Except ε α) = .ok found ↔ p ∧ found = value := by
  by_cases inside : p
  · rw [if_pos inside]
    constructor
    · rintro ⟨⟩
      exact ⟨inside, rfl⟩
    · rintro ⟨-, rfl⟩
      rfl
  · rw [if_neg inside]
    constructor
    · rintro ⟨⟩
    · rintro ⟨fits, -⟩
      exact absurd fits inside

theorem word_eq_ok_iff {value found : Nat} :
    word value = .ok found ↔ value < wordBound ∧ found = value :=
  ite_eq_ok_iff

theorem long_eq_ok_iff {value found : Nat} :
    long value = .ok found ↔ value < 2 ^ 64 ∧ found = value :=
  ite_eq_ok_iff

theorem sub_eq_ok_iff {a b found : Nat} :
    sub a b = .ok found ↔ b ≤ a ∧ found = a - b :=
  ite_eq_ok_iff

/-- A computation that can only fail for a fault succeeds as part of another as it does alone. -/
theorem lift_eq_ok {result : Except Fault α} {value : α} :
    (liftM result : Except (Failure ε) α) = .ok value ↔ result = .ok value := by
  cases result with
  | error cause =>
    constructor
    · rintro ⟨⟩
    · rintro ⟨⟩
  | ok found =>
    constructor
    · rintro ⟨⟩
      rfl
    · rintro ⟨⟩
      rfl

/-- The computation succeeds with a value of the given kind. -/
def Gives (result : Except ε α) (yields : α → Prop) : Prop :=
  ∃ value, result = .ok value ∧ yields value

theorem word_gives {value : Nat} (fits : value < wordBound) : Gives (word value) (· = value) :=
  ⟨value, word_eq_ok fits, rfl⟩

theorem sub_gives {a b : Nat} (le : b ≤ a) : Gives (sub a b) (· = a - b) :=
  ⟨a - b, sub_eq_ok le, rfl⟩

theorem div_gives {a b : Nat} (nonzero : b ≠ 0) : Gives (div a b) (· = a / b) :=
  ⟨a / b, div_eq_ok nonzero, rfl⟩

theorem shift_gives {width amount : Nat} (lt : amount < width) :
    Gives (shift width amount) (· = 2 ^ amount) :=
  ⟨2 ^ amount, shift_eq_ok lt, rfl⟩

namespace Gives

variable {result : Except ε α} {yields : α → Prop}

protected theorem pure {value : α} (known : yields value) :
    Gives (pure value : Except ε α) yields :=
  ⟨value, rfl, known⟩

protected theorem bind {next : α → Except ε β} {results : β → Prop} (first : Gives result yields)
    (second : ∀ value, yields value → Gives (next value) results) :
    Gives (result >>= next) results := by
  rcases first with ⟨value, success, known⟩
  rw [bind_of_ok success]
  exact second value known

protected theorem ite {p : Prop} [Decidable p] {other : Except ε α}
    (first : p → Gives result yields) (second : ¬p → Gives other yields) :
    Gives (if p then result else other) yields := by
  by_cases chosen : p
  · rw [if_pos chosen]
    exact first chosen
  · rw [if_neg chosen]
    exact second chosen

/-- A computation for each item of a list. -/
protected theorem mapM {γ : Type} {each : γ → Except ε α} {items : List γ}
    (gives : ∀ item ∈ items, Gives (each item) yields) :
    Gives (items.mapM each) fun values => ∀ value ∈ values, yields value := by
  induction items with
  | nil =>
    rw [List.mapM_nil]
    apply Gives.pure
    intro value member
    cases member
  | cons item rest ih =>
    rw [List.mapM_cons]
    refine (gives item (by simp)).bind fun value known => ?_
    refine (ih fun later member => gives later (by simp [member])).bind fun values others => ?_
    apply Gives.pure
    intro found member
    rcases List.mem_cons.1 member with rfl | later
    · exact known
    · exact others found later

/-- A computation for each item of a vector. -/
protected theorem mapM_vector {γ : Type} {n : Nat} {each : γ → Except ε α} {items : Vector γ n}
    (gives : ∀ item ∈ items, Gives (each item) yields) :
    Gives (items.mapM each) fun values => ∀ value ∈ values, yields value := by
  have list : Gives (items.toList.mapM each) fun values => ∀ value ∈ values, yields value :=
    Gives.mapM fun item member => gives item (Vector.mem_toList_iff.1 member)
  rcases list with ⟨list, success, known⟩
  rw [← Step.mapM_vector] at success
  cases run : items.mapM each with
  | error cause =>
    rw [run] at success
    cases success
  | ok values =>
    rw [run] at success
    cases success
    refine ⟨values, rfl, ?_⟩
    intro value member
    exact known value (Vector.mem_toList_iff.2 member)

end Gives

/-- Computations that succeed for all items of a vector are no computations at all. -/
theorem mapM_vector_of_ok {γ : Type} {n : Nat} {items : Vector γ n} {each : γ → Except ε α}
    {f : γ → α} (success : ∀ item ∈ items, each item = .ok (f item)) :
    items.mapM each = .ok (items.map f) := by
  have list : ∀ rest : List γ, (∀ item ∈ rest, each item = .ok (f item)) →
      rest.mapM each = .ok (rest.map f) := by
    intro rest
    induction rest with
    | nil => intro _; rfl
    | cons item rest ih =>
      intro known
      obtain ⟨first, later⟩ := List.forall_mem_cons.1 known
      rw [List.mapM_cons, bind_of_ok first, bind_of_ok (ih later)]
      rfl
  have run := list items.toList fun item member => success item (Vector.mem_toList_iff.1 member)
  rw [← Step.mapM_vector] at run
  cases found : items.mapM each with
  | error cause =>
    rw [found] at run
    cases run
  | ok values =>
    rw [found] at run
    have same : values.toList = items.toList.map f := Except.ok.inj run
    rw [← Vector.toList_map] at same
    rw [Vector.toList_inj.1 same]

end Checked

end Av1Tiling
