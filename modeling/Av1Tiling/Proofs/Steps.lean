import Av1Tiling.StreamError

/-!
# Steps that may fail

Reading, writing and decoding are all steps over a state that stays behind also where the step
fails. A step in front of another is known by what it yields: `bind_eq_ok` takes a run apart,
`bind_of_ok` goes on from a known first step. `Ensures` says of every run from the states of some
kind what it yields, or why it fails, and `Keeps` says so of runs that may fail in any state.
-/

namespace Av1Tiling.Step

variable {ε σ α β : Type}

@[simp] theorem pure_eq (value : α) (state : σ) :
    (pure value : EStateM ε σ α) state = .ok value state := rfl

theorem get_bind {next : σ → EStateM ε σ β} {state : σ} :
    (get >>= next) state = next state state := rfl

theorem modify_eq (change : σ → σ) (state : σ) :
    (modify change : EStateM ε σ PUnit) state = .ok ⟨⟩ (change state) := rfl

/-- Steps that come out the same go on the same. -/
theorem bind_of_eq {step other : EStateM ε σ α} {next : α → EStateM ε σ β} {state away : σ}
    (same : step state = other away) : (step >>= next) state = (other >>= next) away := by
  simp only [bind, EStateM.bind, same]

theorem bind_of_ok {step : EStateM ε σ α} {next : α → EStateM ε σ β} {state between : σ}
    {value : α} (first : step state = .ok value between) :
    (step >>= next) state = next value between := by
  simp only [bind, EStateM.bind, first]

theorem bind_of_error {step : EStateM ε σ α} {next : α → EStateM ε σ β} {state between : σ}
    {cause : ε} (first : step state = .error cause between) :
    (step >>= next) state = .error cause between := by
  simp only [bind, EStateM.bind, first]

theorem bind_eq_ok {step : EStateM ε σ α} {next : α → EStateM ε σ β} {state behind : σ}
    {result : β} :
    (step >>= next) state = .ok result behind ↔
      ∃ value between, step state = .ok value between ∧ next value between = .ok result behind := by
  constructor
  · intro run
    cases first : step state with
    | ok value between => exact ⟨value, between, rfl, (bind_of_ok first).symm.trans run⟩
    | error cause between =>
      rw [bind_of_error first] at run
      cases run
  · rintro ⟨value, between, first, second⟩
    rw [bind_of_ok first, second]

theorem bind_eq_error {step : EStateM ε σ α} {next : α → EStateM ε σ β} {state behind : σ}
    {cause : ε} :
    (step >>= next) state = .error cause behind ↔
      step state = .error cause behind ∨
        ∃ value between, step state = .ok value between ∧
          next value between = .error cause behind := by
  constructor
  · intro run
    cases first : step state with
    | ok value between =>
      exact .inr ⟨value, between, rfl, (bind_of_ok first).symm.trans run⟩
    | error other between =>
      rw [bind_of_error first] at run
      cases run
      exact .inl rfl
  · rintro (first | ⟨value, between, first, second⟩)
    · exact bind_of_error first
    · rw [bind_of_ok first, second]

/-- The result is a value that `check` holds of. -/
def Succeeds (check : α → σ → Prop) : EStateM.Result ε σ α → Prop
  | .ok value state => check value state
  | .error _ _ => False

instance {check : α → σ → Prop} [∀ value state, Decidable (check value state)]
    (result : EStateM.Result ε σ α) : Decidable (Succeeds check result) :=
  match result with
  | .ok value state => inferInstanceAs (Decidable (check value state))
  | .error _ _ => inferInstanceAs (Decidable False)

theorem Succeeds.eq_ok {check : α → σ → Prop} {result : EStateM.Result ε σ α}
    (succeeds : Succeeds check result) :
    ∃ value state, result = .ok value state ∧ check value state := by
  cases result with
  | ok value state => exact ⟨value, state, rfl, succeeds⟩
  | error cause state => exact succeeds.elim

/-- A computation that succeeds is no step at all. -/
theorem lift_bind {result : Except ε α} {value : α} (success : result = .ok value)
    (next : α → EStateM (Failure ε) σ β) :
    ((liftM result : EStateM (Failure ε) σ α) >>= next) = next value := by
  rw [success]
  rfl

theorem liftFault_bind {result : Except Fault α} {value : α} (success : result = .ok value)
    (next : α → EStateM (Failure ε) σ β) :
    ((liftM result : EStateM (Failure ε) σ α) >>= next) = next value := by
  rw [success]
  rfl

theorem lift_eq_ok {result : Except ε α} {value : α} {state behind : σ} :
    (liftM result : EStateM (Failure ε) σ α) state = .ok value behind ↔
      result = .ok value ∧ behind = state := by
  cases result with
  | error cause =>
    constructor
    · intro run
      cases run
    · rintro ⟨⟨⟩, -⟩
  | ok found =>
    constructor
    · intro run
      cases run
      exact ⟨rfl, rfl⟩
    · rintro ⟨⟨⟩, rfl⟩
      rfl

theorem liftFault_eq_ok {result : Except Fault α} {value : α} {state behind : σ} :
    (liftM result : EStateM (Failure ε) σ α) state = .ok value behind ↔
      result = .ok value ∧ behind = state := by
  cases result with
  | error cause =>
    constructor
    · intro run
      cases run
    · rintro ⟨⟨⟩, -⟩
  | ok found =>
    constructor
    · intro run
      cases run
      exact ⟨rfl, rfl⟩
    · rintro ⟨⟨⟩, rfl⟩
      rfl

theorem map_eq_ok {step : EStateM ε σ α} {f : α → β} {state behind : σ} {result : β} :
    (f <$> step) state = .ok result behind ↔
      ∃ value, step state = .ok value behind ∧ f value = result := by
  cases first : step state with
  | error cause between => simp [Functor.map, EStateM.map, first]
  | ok value between =>
    simp only [Functor.map, EStateM.map, first, EStateM.Result.ok.injEq]
    constructor
    · rintro ⟨rfl, rfl⟩
      exact ⟨value, ⟨rfl, rfl⟩, rfl⟩
    · rintro ⟨_, ⟨rfl, rfl⟩, rfl⟩
      exact ⟨rfl, rfl⟩

/-- Steps for the items of a vector are steps for a list. -/
theorem mapM_vector {m : Type → Type} [Monad m] [LawfulMonad m] {n : Nat} (items : Vector α n)
    (step : α → m β) : Vector.toList <$> items.mapM step = items.toList.mapM step := by
  have arrays : Vector.toArray <$> items.mapM step = List.toArray <$> items.toList.mapM step := by
    rw [Vector.toArray_mapM, Array.mapM_eq_mapM_toList]
    rfl
  calc Vector.toList <$> items.mapM step
      = Array.toList <$> Vector.toArray <$> items.mapM step := by
        rw [← comp_map]
        rfl
    _ = Array.toList <$> List.toArray <$> items.toList.mapM step := by rw [arrays]
    _ = items.toList.mapM step := by
        rw [← comp_map]
        exact id_map _

theorem mapM_vector_eq_ok {n : Nat} {items : Vector α n} {step : α → EStateM ε σ β}
    {state behind : σ} {found : Vector β n} :
    items.mapM step state = .ok found behind ↔
      items.toList.mapM step state = .ok found.toList behind := by
  rw [← mapM_vector, map_eq_ok]
  constructor
  · intro run
    exact ⟨found, run, rfl⟩
  · rintro ⟨other, run, same⟩
    rwa [← Vector.toList_inj.1 same]

/-- Every run of `step` from a state with `holds` leaves such a state behind. It yields a value
    with `yields`, or fails for a cause with `fails`. -/
def Ensures (holds : σ → Prop) (fails : ε → Prop) (step : EStateM ε σ α) (yields : α → Prop) :
    Prop :=
  ∀ state, holds state →
    match step state with
    | .ok value behind => yields value ∧ holds behind
    | .error cause behind => fails cause ∧ holds behind

namespace Ensures

variable {holds : σ → Prop} {fails : ε → Prop} {step other : EStateM ε σ α} {yields : α → Prop}

theorem of_ok (ensures : Ensures holds fails step yields) {state behind : σ} {value : α}
    (start : holds state) (run : step state = .ok value behind) : yields value ∧ holds behind := by
  have result := ensures state start
  rwa [run] at result

theorem of_error (ensures : Ensures holds fails step yields) {state behind : σ} {cause : ε}
    (start : holds state) (run : step state = .error cause behind) :
    fails cause ∧ holds behind := by
  have result := ensures state start
  rwa [run] at result

protected theorem pure {value : α} (known : yields value) :
    Ensures holds fails (pure value) yields :=
  fun _ start => ⟨known, start⟩

protected theorem throw {cause : ε} (known : fails cause) :
    Ensures holds fails (throw cause) yields :=
  fun _ start => ⟨known, start⟩

protected theorem bind {next : α → EStateM ε σ β} {results : β → Prop}
    (first : Ensures holds fails step yields)
    (second : ∀ value, yields value → Ensures holds fails (next value) results) :
    Ensures holds fails (step >>= next) results := by
  intro state start
  cases run : step state with
  | ok value between =>
    have known := first.of_ok start run
    rw [bind_of_ok run]
    exact second value known.1 between known.2
  | error cause between =>
    rw [bind_of_error run]
    exact first.of_error start run

/-- What follows a failure does not matter. -/
theorem throw_bind {next : α → EStateM ε σ β} {results : β → Prop} {cause : ε}
    (known : fails cause) : Ensures holds fails (throw cause >>= next) results :=
  fun _ start => ⟨known, start⟩

/-- More may be known of a value than is asked for. -/
theorem mono {results : α → Prop} (ensures : Ensures holds fails step yields)
    (weaker : ∀ value, yields value → results value) : Ensures holds fails step results := by
  intro state start
  cases run : step state with
  | ok value behind =>
    have known := ensures.of_ok start run
    exact ⟨weaker value known.1, known.2⟩
  | error cause behind => exact ensures.of_error start run

/-- More may be known of a cause than is asked for. -/
theorem mono_fails {causes : ε → Prop} (ensures : Ensures holds fails step yields)
    (weaker : ∀ cause, fails cause → causes cause) : Ensures holds causes step yields := by
  intro state start
  cases run : step state with
  | ok value behind => exact ensures.of_ok start run
  | error cause behind =>
    have known := ensures.of_error start run
    exact ⟨weaker cause known.1, known.2⟩

protected theorem map {results : β → Prop} (f : α → β) (ensures : Ensures holds fails step yields)
    (mapped : ∀ value, yields value → results (f value)) :
    Ensures holds fails (f <$> step) results := by
  intro state start
  have known := ensures state start
  simp only [Functor.map, EStateM.map]
  cases run : step state with
  | ok value behind =>
    rw [run] at known
    exact ⟨mapped value known.1, known.2⟩
  | error cause behind =>
    rw [run] at known
    exact known

protected theorem ite {p : Prop} [Decidable p] (first : p → Ensures holds fails step yields)
    (second : ¬p → Ensures holds fails other yields) :
    Ensures holds fails (if p then step else other) yields := by
  by_cases chosen : p
  · rw [if_pos chosen]
    exact first chosen
  · rw [if_neg chosen]
    exact second chosen

/-- Nothing is asked for. -/
protected theorem trivial : Ensures (fun _ : σ => True) (fun _ => True) step fun _ => True := by
  intro state _
  cases step state with
  | ok value behind => exact ⟨True.intro, True.intro⟩
  | error cause behind => exact ⟨True.intro, True.intro⟩

protected theorem get : Ensures holds fails get holds :=
  fun _ start => ⟨start, start⟩

protected theorem modify {change : σ → σ} (kept : ∀ state, holds state → holds (change state)) :
    Ensures holds fails (modify change) fun _ => True :=
  fun state start => ⟨trivial, kept state start⟩

/-- A loop whose turns yield nothing. -/
protected theorem forIn {γ : Type} {turn : γ → PUnit → EStateM ε σ (ForInStep PUnit)}
    {items : List γ} (each : ∀ item, Ensures holds fails (turn item ⟨⟩) fun _ => True) :
    Ensures holds fails (ForIn.forIn items ⟨⟩ turn) fun _ => True := by
  induction items with
  | nil => exact .pure trivial
  | cons item rest ih =>
    rw [List.forIn_cons]
    refine (each item).bind fun next _ => ?_
    cases next with
    | done => exact .pure trivial
    | yield => exact ih

/-- A loop over the items of a list. -/
protected theorem forM {γ : Type} {each : γ → EStateM ε σ PUnit} {items : List γ}
    (ensures : ∀ item ∈ items, Ensures holds fails (each item) fun _ => True) :
    Ensures holds fails (items.forM each) fun _ => True := by
  induction items with
  | nil => exact .pure trivial
  | cons item rest ih =>
    obtain ⟨first, later⟩ := List.forall_mem_cons.1 ensures
    exact first.bind fun _ _ => ih later

/-- A row of steps, one for each item of a list. -/
protected theorem mapM {γ : Type} {each : γ → EStateM ε σ α} {items : List γ}
    (ensures : ∀ item ∈ items, Ensures holds fails (each item) yields) :
    Ensures holds fails (items.mapM each) fun values => ∀ value ∈ values, yields value := by
  induction items with
  | nil =>
    rw [List.mapM_nil]
    apply Ensures.pure
    intro value member
    cases member
  | cons item rest ih =>
    rw [List.mapM_cons]
    refine (ensures item (by simp)).bind fun value known => ?_
    refine (ih fun later member => ensures later (by simp [member])).bind fun values others => ?_
    apply Ensures.pure
    intro found member
    rcases List.mem_cons.1 member with rfl | later
    · exact known
    · exact others found later

/-- A row of steps, one for each item of a vector. -/
protected theorem mapM_vector {γ : Type} {n : Nat} {each : γ → EStateM ε σ α} {items : Vector γ n}
    (ensures : ∀ item, Ensures holds fails (each item) yields) :
    Ensures holds fails (items.mapM each) fun values => ∀ value ∈ values, yields value := by
  intro state start
  have list : Ensures holds fails (items.toList.mapM each) fun values =>
      ∀ value ∈ values, yields value := Ensures.mapM fun item _ => ensures item
  have list := list state start
  rw [← Step.mapM_vector] at list
  simp only [Functor.map, EStateM.map] at list
  cases run : items.mapM each state with
  | ok values behind =>
    rw [run] at list
    refine ⟨?_, list.2⟩
    intro value member
    exact list.1 value (Vector.mem_toList_iff.2 member)
  | error cause behind =>
    rw [run] at list
    exact list

end Ensures

/-- Every run of `step` from a state with `holds` yields a value with `yields` and leaves such a
    state behind, or fails for a cause with `fails`. Unlike `Ensures` it leaves open what a failure
    leaves behind. -/
def Keeps (holds : σ → Prop) (fails : ε → Prop) (step : EStateM ε σ α) (yields : α → Prop) : Prop :=
  ∀ state, holds state →
    match step state with
    | .ok value behind => yields value ∧ holds behind
    | .error cause _ => fails cause

namespace Keeps

variable {holds : σ → Prop} {fails : ε → Prop} {step other : EStateM ε σ α} {yields : α → Prop}

theorem of_ok (keeps : Keeps holds fails step yields) {state behind : σ} {value : α}
    (start : holds state) (run : step state = .ok value behind) : yields value ∧ holds behind := by
  have result := keeps state start
  rwa [run] at result

theorem of_error (keeps : Keeps holds fails step yields) {state behind : σ} {cause : ε}
    (start : holds state) (run : step state = .error cause behind) : fails cause := by
  have result := keeps state start
  rwa [run] at result

/-- What is known of the two ends of a run, one by one. -/
theorem intro (success : ∀ state value behind, holds state → step state = .ok value behind →
      yields value ∧ holds behind)
    (failure : ∀ state cause behind, holds state → step state = .error cause behind →
      fails cause) : Keeps holds fails step yields := by
  intro state start
  cases run : step state with
  | ok value behind => exact success state value behind start run
  | error cause behind => exact failure state cause behind start run

protected theorem pure {value : α} (known : yields value) :
    Keeps holds fails (pure value) yields :=
  fun _ start => ⟨known, start⟩

protected theorem throw {cause : ε} (known : fails cause) :
    Keeps holds fails (throw cause) yields :=
  fun _ _ => known

/-- What follows a failure does not matter. -/
theorem throw_bind {next : α → EStateM ε σ β} {results : β → Prop} {cause : ε}
    (known : fails cause) : Keeps holds fails (throw cause >>= next) results :=
  fun _ _ => known

protected theorem bind {next : α → EStateM ε σ β} {results : β → Prop}
    (first : Keeps holds fails step yields)
    (second : ∀ value, yields value → Keeps holds fails (next value) results) :
    Keeps holds fails (step >>= next) results := by
  intro state start
  cases run : step state with
  | ok value between =>
    have known := first.of_ok start run
    rw [bind_of_ok run]
    exact second value known.1 between known.2
  | error cause between =>
    rw [bind_of_error run]
    exact first.of_error start run

theorem get_bind {next : σ → EStateM ε σ β} {results : β → Prop}
    (each : ∀ state, holds state → Keeps holds fails (next state) results) :
    Keeps holds fails (get >>= next) results :=
  fun state start => each state start state start

protected theorem ite {p : Prop} [Decidable p] (first : p → Keeps holds fails step yields)
    (second : ¬p → Keeps holds fails other yields) :
    Keeps holds fails (if p then step else other) yields := by
  by_cases chosen : p
  · rw [if_pos chosen]
    exact first chosen
  · rw [if_neg chosen]
    exact second chosen

protected theorem modify {change : σ → σ} (kept : ∀ state, holds state → holds (change state)) :
    Keeps holds fails (modify change) fun _ => True :=
  fun state start => ⟨trivial, kept state start⟩

/-- A loop over the items of a list. -/
protected theorem forM {γ : Type} {each : γ → EStateM ε σ PUnit} {items : List γ}
    (keeps : ∀ item ∈ items, Keeps holds fails (each item) fun _ => True) :
    Keeps holds fails (items.forM each) fun _ => True := by
  induction items with
  | nil => exact .pure trivial
  | cons item rest ih =>
    obtain ⟨first, later⟩ := List.forall_mem_cons.1 keeps
    exact first.bind fun _ _ => ih later

end Keeps

end Av1Tiling.Step
