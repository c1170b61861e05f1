import Av1Tiling.Proofs.Frame.Safety

/-!
# The references of short signalling

The slots of the references that are not coded are found in turns, each from the slots that no
reference has yet: the latest frame that is shown later, then twice the earliest of these, then for
each reference that is left the latest frame in the past. References behind that all have the
earliest slot (`References.Follows`). This is what a frame header with short signalling comes to,
where its two coded references lie in the past (`ReadFrame.shortSignaling_follows`).
-/

namespace Av1Tiling

/-- From order hint `b` to order hint `a` it is this far, counted around zero where that is the
    shorter way. -/
structure IsDistance (bits a b : Nat) (distance : Int) : Prop where
  low : -2 ^ (bits - 1) ≤ distance
  high : distance < 2 ^ (bits - 1)
  around : (2 ^ bits : Int) ∣ a - b - distance

namespace References

variable {distance : Fin 8 → Int}

/-! ## The slot that is taken -/

/-- `slot` has the greater distance of both, or the higher number if the distances are the same. -/
def Later (distance : Fin 8 → Int) (slot other : Fin 8) : Prop :=
  distance other < distance slot ∨ distance other = distance slot ∧ other ≤ slot

/-- `slot` has the smaller distance of both, or the lower number if the distances are the same. -/
def Earlier (distance : Fin 8 → Int) (slot other : Fin 8) : Prop :=
  distance slot < distance other ∨ distance slot = distance other ∧ slot ≤ other

/-- The slot of some kind that beats all others of it, if there are any of that kind. -/
def Picks (beats : Fin 8 → Fin 8 → Prop) (kind : Fin 8 → Prop) : Option (Fin 8) → Prop
  | some slot => kind slot ∧ ∀ other, kind other → beats slot other
  | none => ∀ slot, ¬ kind slot

theorem Picks.congr {beats : Fin 8 → Fin 8 → Prop} {kind same : Fin 8 → Prop}
    {found : Option (Fin 8)} (picks : Picks beats kind found)
    (alike : ∀ slot, kind slot ↔ same slot) : Picks beats same found := by
  obtain rfl : kind = same := funext fun slot => propext (alike slot)
  exact picks

section Scan

variable {beats : Fin 8 → Fin 8 → Prop} {step : Option (Fin 8) → Fin 8 → Option (Fin 8)}

/-- Of two slots the one is kept that beats the other. -/
structure Scans (beats : Fin 8 → Fin 8 → Prop) (step : Option (Fin 8) → Fin 8 → Option (Fin 8)) :
    Prop where
  first : ∀ slot, step none slot = some slot
  next : ∀ kept slot, kept < slot → ∃ winner, step (some kept) slot = some winner ∧
    (winner = kept ∨ winner = slot) ∧ beats winner kept ∧ beats winner slot
  refl : ∀ slot, beats slot slot
  trans : ∀ {a b c}, beats a b → beats b c → beats a c

theorem Scans.foldl_some (scans : Scans beats step) {slots : List (Fin 8)} {kept : Fin 8}
    (sorted : (kept :: slots).Pairwise (· < ·)) :
    ∃ winner ∈ kept :: slots, slots.foldl step (some kept) = some winner ∧
      ∀ other ∈ kept :: slots, beats winner other := by
  induction slots generalizing kept with
  | nil => exact ⟨kept, List.mem_cons_self, rfl, by simpa using scans.refl kept⟩
  | cons slot rest ih =>
    obtain ⟨below, later⟩ := List.pairwise_cons.1 sorted
    obtain ⟨better, run, chosen, first, second⟩ := scans.next kept slot (below slot (by simp))
    have sorted' : (better :: rest).Pairwise (· < ·) := by
      rcases chosen with rfl | rfl
      · exact sorted.sublist (by simp)
      · exact later
    obtain ⟨winner, member, rest', best⟩ := ih sorted'
    have most := best better List.mem_cons_self
    refine ⟨winner, ?_, by rw [List.foldl_cons, run, rest'], fun other place => ?_⟩
    · rcases List.mem_cons.1 member with rfl | inside
      · rcases chosen with rfl | rfl
        · exact List.mem_cons_self
        · exact .tail _ List.mem_cons_self
      · exact .tail _ (.tail _ inside)
    · rcases List.mem_cons.1 place with rfl | place
      · exact scans.trans most first
      rcases List.mem_cons.1 place with rfl | place
      · exact scans.trans most second
      · exact best other (.tail _ place)

theorem Scans.picks (scans : Scans beats step) {slots : List (Fin 8)}
    (sorted : slots.Pairwise (· < ·)) : Picks beats (· ∈ slots) (slots.foldl step none) := by
  cases slots with
  | nil => exact fun _ => List.not_mem_nil
  | cons slot rest =>
    obtain ⟨winner, member, run, best⟩ := scans.foldl_some sorted
    rw [List.foldl_cons, scans.first, run]
    exact ⟨member, best⟩

end Scan

theorem latest?_picks {slots : List (Fin 8)} (sorted : slots.Pairwise (· < ·)) :
    Picks (Later distance) (· ∈ slots) (latest? distance slots) := by
  refine Scans.picks ⟨fun _ => rfl, fun kept slot below => ?_, fun slot => ?_, ?_⟩ sorted
  · by_cases less : distance slot < distance kept
    · exact ⟨kept, if_pos less, .inl rfl, .inr ⟨rfl, Fin.le_refl _⟩, .inl less⟩
    · refine ⟨slot, if_neg less, .inr rfl, ?_, .inr ⟨rfl, Fin.le_refl _⟩⟩
      rcases Int.lt_or_eq_of_le (Int.not_lt.1 less) with above | same
      · exact .inl above
      · exact .inr ⟨same, Fin.le_of_lt below⟩
  · exact .inr ⟨rfl, Fin.le_refl slot⟩
  · grind [Later]

theorem earliest?_picks {slots : List (Fin 8)} (sorted : slots.Pairwise (· < ·)) :
    Picks (Earlier distance) (· ∈ slots) (earliest? distance slots) := by
  refine Scans.picks ⟨fun _ => rfl, fun kept slot below => ?_, fun slot => ?_, ?_⟩ sorted
  · by_cases less : distance slot < distance kept
    · exact ⟨slot, if_pos less, .inr rfl, .inl less, .inr ⟨rfl, Fin.le_refl _⟩⟩
    · refine ⟨kept, if_neg less, .inl rfl, .inr ⟨rfl, Fin.le_refl _⟩, ?_⟩
      rcases Int.lt_or_eq_of_le (Int.not_lt.1 less) with above | same
      · exact .inl above
      · exact .inr ⟨same, Fin.le_of_lt below⟩
  · exact .inr ⟨rfl, Fin.le_refl slot⟩
  · grind [Earlier]

theorem finRange_sorted : (List.finRange 8).Pairwise (· < ·) := by
  decide

theorem slotsWhere_sorted (p : Fin 8 → Bool) : (slotsWhere p).Pairwise (· < ·) :=
  finRange_sorted.sublist List.filter_sublist

theorem mem_slotsWhere {p : Fin 8 → Bool} {slot : Fin 8} : slot ∈ slotsWhere p ↔ p slot := by
  rw [slotsWhere, List.mem_filter, and_iff_right (List.mem_finRange slot)]

/-! ## One turn -/

namespace Choice

variable {choice next : Choice} {reference : Fin 7} {slot : Fin 8}

/-- Some reference has the slot. -/
def Holds (choice : Choice) (slot : Fin 8) : Prop :=
  ∃ reference : Fin 7, choice.get reference = some slot

/-- One of these references has the slot. -/
def Held (choice : Choice) (references : List (Fin 7)) (slot : Fin 8) : Prop :=
  ∃ reference ∈ references, choice.get reference = some slot

theorem held_nil : ¬ choice.Held [] slot := by
  simp [Held]

theorem held_cons {rest : List (Fin 7)} :
    choice.Held (reference :: rest) slot ↔
      choice.get reference = some slot ∨ choice.Held rest slot := by
  simp [Held]

theorem uses_iff : choice.uses slot = true ↔ choice.Holds slot := by
  rw [uses, List.contains_iff_mem, Vector.mem_toList_iff, Vector.mem_iff_getElem]
  constructor
  · rintro ⟨i, bound, same⟩
    exact ⟨⟨i, bound⟩, same⟩
  · rintro ⟨reference, same⟩
    exact ⟨reference, reference.isLt, same⟩

/-- If the reference has no slot, it takes the one of some kind that beats all others which no
    reference has. -/
structure Turn (beats : Fin 8 → Fin 8 → Prop) (kind : Fin 8 → Prop) (reference : Fin 7)
    (choice next : Choice) : Prop where
  kept : ∀ (other : Fin 7) (slot : Fin 8), choice.get other = some slot → next.get other = some slot
  others : ∀ other : Fin 7, other ≠ reference → next.get other = choice.get other
  picks : choice.get reference = none →
    Picks beats (fun slot => kind slot ∧ ¬ choice.Holds slot) (next.get reference)

variable {beats : Fin 8 → Fin 8 → Prop} {kind : Fin 8 → Prop}

theorem get_assign (choice : Choice) (reference other : Fin 7) (found : Option (Fin 8)) :
    (choice.assign reference found).get other =
      if other = reference then found.or (choice.get other) else choice.get other := by
  cases found with
  | none => simp [assign]
  | some slot =>
    by_cases same : other = reference
    · subst same
      rw [if_pos rfl]
      exact Vector.getElem_set_self other.isLt
    · rw [if_neg same]
      exact Vector.getElem_set_ne reference.isLt other.isLt fun alike => same (Fin.ext alike.symm)

theorem assign_turn {found : Option (Fin 8)} (unset : choice.get reference = none)
    (picks : Picks beats (fun slot => kind slot ∧ ¬ choice.Holds slot) found) :
    Turn beats kind reference choice (choice.assign reference found) := by
  refine ⟨fun other slot known => ?_, fun other apart => ?_, fun _ => ?_⟩
  · rw [get_assign, if_neg, known]
    rintro rfl
    rw [unset] at known
    cases known
  · rw [get_assign, if_neg apart]
  · rwa [get_assign, if_pos rfl, unset, Option.or_none]

/-- The slots to choose from are those of the kind that no reference has. -/
theorem mem_free (kind : Fin 8 → Prop) [DecidablePred kind] :
    slot ∈ slotsWhere (fun slot => !choice.uses slot && decide (kind slot)) ↔
      kind slot ∧ ¬ choice.Holds slot := by
  rw [mem_slotsWhere, ← uses_iff]
  simp [and_comm]

theorem latestBackward_turn (unset : choice.get reference = none) :
    Turn (Later distance) (0 ≤ distance ·) reference choice
      (choice.latestBackward distance reference) :=
  assign_turn unset ((latest?_picks (slotsWhere_sorted _)).congr fun _ => mem_free _)

theorem earliestBackward_turn (unset : choice.get reference = none) :
    Turn (Earlier distance) (0 ≤ distance ·) reference choice
      (choice.earliestBackward distance reference) :=
  assign_turn unset ((earliest?_picks (slotsWhere_sorted _)).congr fun _ => mem_free _)

theorem latestForward_turn (distance : Fin 8 → Int) (choice : Choice) (reference : Fin 7) :
    Turn (Later distance) (distance · < 0) reference choice
      (choice.latestForward distance reference) := by
  rw [latestForward]
  cases known : choice[reference] with
  | some slot =>
    refine ⟨fun _ _ same => same, fun _ _ => rfl, fun unset => ?_⟩
    cases known.symm.trans unset
  | none =>
    exact assign_turn known ((latest?_picks (slotsWhere_sorted _)).congr fun _ => mem_free _)

theorem Turn.holds (turn : Turn beats kind reference choice next) :
    next.Holds slot ↔ choice.Holds slot ∨ next.get reference = some slot := by
  constructor
  · rintro ⟨other, known⟩
    by_cases same : other = reference
    · subst same
      exact .inr known
    · rw [turn.others other same] at known
      exact .inl ⟨other, known⟩
  · rintro (⟨other, known⟩ | known)
    · exact ⟨other, turn.kept other slot known⟩
    · exact ⟨reference, known⟩

/-- Only the two coded references may have the same slot. -/
def Apart (choice : Choice) : Prop :=
  ∀ (first second : Fin 7) (slot : Fin 8), first ≠ second → choice.get first = some slot →
    choice.get second = some slot →
    (first = last ∨ first = golden) ∧ (second = last ∨ second = golden)

/-- A slot that is taken had been free. -/
theorem Apart.turn (apart : choice.Apart) (turn : Turn beats kind reference choice next) :
    next.Apart := by
  have free : ∀ {slot : Fin 8}, choice.get reference = none → next.get reference = some slot →
      ¬ choice.Holds slot := by
    intro slot unset taken
    have picks := turn.picks unset
    rw [taken] at picks
    exact picks.1.2
  have old : ∀ {first second : Fin 7} {slot : Fin 8}, first ≠ second → next.get first = some slot →
      next.get second = some slot → choice.get first = some slot := by
    intro first second slot distinct one two
    by_cases here : first = reference
    · subst here
      rw [turn.others second (Ne.symm distinct)] at two
      cases known : choice.get first with
      | none => exact absurd ⟨second, two⟩ (free known one)
      | some kept => rw [← one, turn.kept first kept known]
    · rwa [← turn.others first here]
  intro first second slot distinct one two
  exact apart first second slot distinct (old distinct one two)
    (old (Ne.symm distinct) two one)

/-! ## All turns -/

/-- Each of these references has had its turn, one behind the other. -/
structure Turns (beats : Fin 8 → Fin 8 → Prop) (kind : Fin 8 → Prop) (references : List (Fin 7))
    (choice behind : Choice) : Prop where
  kept : ∀ (other : Fin 7) (slot : Fin 8), choice.get other = some slot →
    behind.get other = some slot
  others : ∀ other : Fin 7, other ∉ references → behind.get other = choice.get other
  picks : ∀ front reference rest, references = front ++ reference :: rest →
    choice.get reference = none →
    Picks beats (fun slot => kind slot ∧ ¬ choice.Holds slot ∧ ¬ behind.Held front slot)
      (behind.get reference)

theorem Turns.cons {behind : Choice} {references : List (Fin 7)} (new : reference ∉ references)
    (first : Turn beats kind reference choice next)
    (later : Turns beats kind references next behind) :
    Turns beats kind (reference :: references) choice behind := by
  refine ⟨fun other slot known => later.kept other slot (first.kept other slot known),
    fun other outside => ?_, fun front own rest split unset => ?_⟩
  · obtain ⟨apart, outside⟩ := not_or.1 (mt List.mem_cons.2 outside)
    rw [later.others other outside, first.others other apart]
  have here := later.others reference new
  obtain _ | ⟨head, front⟩ := front
  · obtain ⟨rfl, rfl⟩ := List.cons.inj split
    rw [here]
    refine (first.picks unset).congr fun slot => ?_
    rw [iff_true_intro held_nil, and_true]
  · obtain ⟨rfl, rfl⟩ := List.cons.inj split
    have apart : own ≠ reference := by
      rintro rfl
      exact new (by simp)
    refine (later.picks front own rest rfl (by rw [first.others own apart, unset])).congr
      fun slot => ?_
    -- what was taken first is held behind all turns as well
    rw [first.holds, held_cons, ← here, not_or, not_or, and_assoc]

/-- Where a reference was left without a slot, all slots of the kind are held. -/
theorem Turns.holds_of_left {behind : Choice} {references : List (Fin 7)}
    (turns : Turns beats kind references choice behind) (member : reference ∈ references)
    (left : behind.get reference = none) (wanted : kind slot) : behind.Holds slot := by
  have unset : choice.get reference = none := by
    cases known : choice.get reference with
    | none => rfl
    | some own =>
      rw [turns.kept reference own known] at left
      cases left
  obtain ⟨front, rest, split⟩ := List.append_of_mem member
  have picks := turns.picks front reference rest split unset
  rw [left] at picks
  by_cases early : choice.Holds slot
  · obtain ⟨other, known⟩ := early
    exact ⟨other, turns.kept other slot known⟩
  by_cases soon : behind.Held front slot
  · obtain ⟨other, -, known⟩ := soon
    exact ⟨other, known⟩
  exact absurd ⟨wanted, early, soon⟩ (picks slot)

theorem foldl_latestForward_turns (distance : Fin 8 → Int) {references : List (Fin 7)}
    (distinct : references.Nodup) (choice : Choice) :
    Turns (Later distance) (distance · < 0) references choice
      (references.foldl (latestForward distance) choice) := by
  induction references generalizing choice with
  | nil => exact ⟨fun _ _ known => known, fun _ _ => rfl, by simp⟩
  | cons reference rest ih =>
    obtain ⟨new, distinct⟩ := List.nodup_cons.1 distinct
    exact (ih distinct _).cons new (latestForward_turn distance choice reference)

theorem foldl_latestForward_apart (distance : Fin 8 → Int) (references : List (Fin 7))
    (apart : choice.Apart) : (references.foldl (latestForward distance) choice).Apart := by
  induction references generalizing choice with
  | nil => exact apart
  | cons reference rest ih => exact ih (apart.turn (latestForward_turn distance choice reference))

end Choice

/-- The references that may take a slot in the past, in the order of their turns. -/
def uncoded : List (Fin 7) :=
  [last2, last3, bwdref, altref2, altref]

theorem coded_or_uncoded :
    ∀ reference : Fin 7, reference = last ∨ reference = golden ∨ reference ∈ uncoded := by
  decide

/-- How the references come to their slots. `later` are the slots that the coded references have and
    that frames which are shown later give, `given` are those with frames in the past as well. -/
structure Follows (distance : Fin 8 → Int) (lastSlot goldenSlot : Fin 8) (later given : Choice)
    (chosen : RefIndices) : Prop where
  coded : later.get last = some lastSlot ∧ later.get golden = some goldenSlot
  unset : later.get last2 = none ∧ later.get last3 = none
  latest : Picks (Later distance)
    (fun slot => 0 ≤ distance slot ∧ ¬ later.Held [last, golden] slot) (later.get altref)
  earliest : Picks (Earlier distance)
    (fun slot => 0 ≤ distance slot ∧ ¬ later.Held [last, golden, altref] slot) (later.get bwdref)
  second : Picks (Earlier distance)
    (fun slot => 0 ≤ distance slot ∧ ¬ later.Held [last, golden, altref, bwdref] slot)
    (later.get altref2)
  kept : ∀ (reference : Fin 7) (slot : Fin 8), later.get reference = some slot →
    given.get reference = some slot
  past : ∀ front reference rest, uncoded = front ++ reference :: rest → later.get reference = none →
    Picks (Later distance)
      (fun slot => distance slot < 0 ∧ ¬ later.Holds slot ∧ ¬ given.Held front slot)
      (given.get reference)
  /-- The slot for all that is left is the earliest of all. -/
  rest : ∃ fallback, Picks (Earlier distance) (fun _ => True) (some fallback) ∧
    ∀ reference : Fin 7, chosen.get reference = (given.get reference).getD fallback
  chosenCoded : chosen.get last = lastSlot ∧ chosen.get golden = goldenSlot
  /-- Something is left only if no slot in the past is. -/
  exhausted : ∀ reference : Fin 7, given.get reference = none →
    ∀ slot, distance slot < 0 → given.Holds slot
  /-- No slot is given twice, unless the coded references have the same. -/
  apart : ∀ first second : Fin 7, first ≠ second → chosen.get first = chosen.get second →
    given.get first = none ∨ given.get second = none ∨
      (first = last ∨ first = golden) ∧ (second = last ∨ second = golden)

variable {lastSlot goldenSlot : Fin 8}

theorem get_coded (lastSlot goldenSlot : Fin 8) (reference : Fin 7) :
    (Choice.coded lastSlot goldenSlot).get reference =
      if reference = golden then some goldenSlot
      else if reference = last then some lastSlot else none := by
  show (Choice.coded lastSlot goldenSlot)[reference] = _
  simp only [Choice.coded, Fin.getElem_fin, Vector.getElem_set, Vector.getElem_replicate,
    Fin.ext_iff, eq_comm]

theorem coded_apart (lastSlot goldenSlot : Fin 8) :
    (Choice.coded lastSlot goldenSlot).Apart := by
  have known : ∀ {reference : Fin 7} {slot : Fin 8},
      (Choice.coded lastSlot goldenSlot).get reference = some slot →
        reference = last ∨ reference = golden := by
    intro reference slot same
    by_cases first : reference = last
    · exact .inl first
    by_cases second : reference = golden
    · exact .inr second
    rw [get_coded, if_neg second, if_neg first] at same
    cases same
  exact fun first second slot _ one two => ⟨known one, known two⟩

theorem holds_coded {slot : Fin 8} :
    (Choice.coded lastSlot goldenSlot).Holds slot ↔ lastSlot = slot ∨ goldenSlot = slot := by
  constructor
  · rintro ⟨reference, same⟩
    rw [get_coded] at same
    split at same
    · exact .inr (Option.some.inj same)
    split at same
    · exact .inl (Option.some.inj same)
    · cases same
  · rintro (rfl | rfl)
    · exact ⟨last, rfl⟩
    · exact ⟨golden, rfl⟩

section Turning

variable {first second later given : Choice} {chosen : RefIndices} {fallback : Fin 8}

/-- Three turns for the frames that are shown later, and those for frames in the past. -/
theorem Follows.of_turns
    (one : Choice.Turn (Later distance) (0 ≤ distance ·) altref
      (Choice.coded lastSlot goldenSlot) first)
    (two : Choice.Turn (Earlier distance) (0 ≤ distance ·) bwdref first second)
    (three : Choice.Turn (Earlier distance) (0 ≤ distance ·) altref2 second later)
    (all : Choice.Turns (Later distance) (distance · < 0) uncoded later given)
    (apart : given.Apart) (least : Picks (Earlier distance) (fun _ => True) (some fallback))
    (rest : ∀ reference : Fin 7, chosen.get reference = (given.get reference).getD fallback) :
    Follows distance lastSlot goldenSlot later given chosen := by
  have altrefUnset : (Choice.coded lastSlot goldenSlot).get altref = none := rfl
  have bwdrefUnset : first.get bwdref = none := one.others bwdref (by decide)
  have altref2Unset : second.get altref2 = none := by
    rw [two.others altref2 (by decide), one.others altref2 (by decide)]
    rfl
  have same : ∀ reference : Fin 7, reference ≠ altref → reference ≠ bwdref → reference ≠ altref2 →
      later.get reference = (Choice.coded lastSlot goldenSlot).get reference := by
    intro reference a b c
    rw [three.others reference c, two.others reference b, one.others reference a]
  have lastCoded : later.get last = some lastSlot := same last (by decide) (by decide) (by decide)
  have goldenCoded : later.get golden = some goldenSlot :=
    same golden (by decide) (by decide) (by decide)
  have atAltref : later.get altref = first.get altref := by
    rw [three.others altref (by decide), two.others altref (by decide)]
  have atBwdref : later.get bwdref = second.get bwdref := three.others bwdref (by decide)
  have held : ∀ {slot : Fin 8} {rest : List (Fin 7)},
      later.Held (last :: golden :: rest) slot ↔
        (Choice.coded lastSlot goldenSlot).Holds slot ∨ later.Held rest slot := by
    intro slot rest
    rw [Choice.held_cons, Choice.held_cons, lastCoded, goldenCoded, holds_coded, Option.some.injEq,
      Option.some.injEq, or_assoc]
  constructor
  · exact ⟨lastCoded, goldenCoded⟩
  · exact ⟨same last2 (by decide) (by decide) (by decide),
      same last3 (by decide) (by decide) (by decide)⟩
  · rw [atAltref]
    refine (one.picks altrefUnset).congr fun slot => ?_
    rw [held, or_iff_left Choice.held_nil]
  · rw [atBwdref]
    refine (two.picks bwdrefUnset).congr fun slot => ?_
    rw [held, one.holds, Choice.held_cons, or_iff_left Choice.held_nil, atAltref]
  · refine (three.picks altref2Unset).congr fun slot => ?_
    rw [held, two.holds, one.holds, Choice.held_cons, Choice.held_cons,
      or_iff_left Choice.held_nil, atAltref, atBwdref, or_assoc]
  · exact all.kept
  · exact all.picks
  · exact ⟨fallback, least, rest⟩
  · rw [rest last, rest golden, all.kept _ _ lastCoded, all.kept _ _ goldenCoded]
    exact ⟨rfl, rfl⟩
  · intro reference left slot inPast
    rcases coded_or_uncoded reference with rfl | rfl | turned
    · rw [all.kept _ _ lastCoded] at left
      cases left
    · rw [all.kept _ _ goldenCoded] at left
      cases left
    · exact all.holds_of_left turned left inPast
  · intro one two distinct alike
    rw [rest one, rest two] at alike
    cases here : given.get one with
    | none => exact .inl rfl
    | some slot =>
      cases there : given.get two with
      | none => exact .inr (.inl rfl)
      | some other =>
        rw [here, there] at alike
        obtain rfl : slot = other := alike
        exact .inr (.inr (apart one two slot distinct here there))

end Turning

/-- Where the coded references lie in the past, all references are found. -/
theorem complete_follows (lastPast : distance lastSlot < 0) (goldenPast : distance goldenSlot < 0) :
    ∃ later given chosen, complete distance lastSlot goldenSlot = .ok chosen ∧
      Follows distance lastSlot goldenSlot later given chosen := by
  let coded := Choice.coded lastSlot goldenSlot
  let first := coded.latestBackward distance altref
  let second := first.earliestBackward distance bwdref
  let later := second.earliestBackward distance altref2
  let given := uncoded.foldl (Choice.latestForward distance) later
  have run : complete distance lastSlot goldenSlot =
      .ok (given.map (·.getD ((earliest? distance (List.finRange 8)).getD 0))) := by
    rw [complete, if_neg (Int.not_le.2 lastPast), if_neg (Int.not_le.2 goldenPast)]
    rfl
  have one : Choice.Turn (Later distance) (0 ≤ distance ·) altref coded first :=
    Choice.latestBackward_turn rfl
  have two : Choice.Turn (Earlier distance) (0 ≤ distance ·) bwdref first second :=
    Choice.earliestBackward_turn (one.others bwdref (by decide))
  have three : Choice.Turn (Earlier distance) (0 ≤ distance ·) altref2 second later := by
    apply Choice.earliestBackward_turn
    rw [two.others altref2 (by decide), one.others altref2 (by decide)]
    rfl
  have all : Choice.Turns (Later distance) (distance · < 0) uncoded later given :=
    Choice.foldl_latestForward_turns distance (by decide) later
  have apart : given.Apart := by
    apply Choice.foldl_latestForward_apart
    exact (((coded_apart lastSlot goldenSlot).turn one).turn two).turn three
  have least := @earliest?_picks distance _ finRange_sorted
  cases found : earliest? distance (List.finRange 8) with
  | none =>
    rw [found] at least
    exact absurd (List.mem_finRange 0) (least 0)
  | some fallback =>
    rw [found] at least run
    have whole := least.congr fun slot => iff_true_intro (List.mem_finRange slot)
    refine ⟨later, given, _, run, .of_turns one two three all apart whole fun reference => ?_⟩
    exact Vector.getElem_map _ reference.isLt

end References

/-! ## Distances and what is coded -/

theorem isDistance_bmod {bits : Nat} (present : 1 ≤ bits) (a b : Nat) :
    IsDistance bits a b (Int.bmod (a - b) (2 ^ bits)) := by
  have whole : 2 * 2 ^ (bits - 1) = 2 ^ bits := by
    rw [← Nat.pow_succ', Nat.succ_eq_add_one, Nat.sub_add_cancel present]
  have positive : 0 < 2 ^ bits := Nat.two_pow_pos bits
  have half : ((2 ^ (bits - 1) : Nat) : Int) = 2 ^ (bits - 1) := by push_cast; rfl
  have low := @Int.le_bmod ((a : Int) - b) _ positive
  have high := @Int.bmod_lt ((a : Int) - b) _ positive
  refine ⟨by omega, by omega, ?_⟩
  have around := @Int.dvd_self_sub_bmod ((a : Int) - b) (2 ^ bits)
  exact_mod_cast around

namespace ReadFrame

/-- The bits of short signalling. -/
def shortBits (lastSlot goldenSlot : Fin 8) : Bits :=
  [true] ++ (Bits.ofNat 3 lastSlot ++ Bits.ofNat 3 goldenSlot)

theorem slotIndex_yields (slot : Fin 8) (pos : Nat) :
    Read.Yields slotIndex pos (Bits.ofNat 3 slot) slot := by
  have coded := (Read.bits_decodes 3).yields slot.val pos ⟨by decide, slot.isLt⟩
  rw [← List.append_nil (Bits.ofNat 3 slot)]
  refine coded.bind ?_
  rw [Fin.ofNat_val_eq_self]
  exact .pure slot _

variable {sequence : SequenceHeader}

/-- The distances of the slots are those of their order hints. -/
theorem distances_measured (inRange : sequence.inter.InRange)
    (present : sequence.inter.orderHint = true) {slots : RefSlots}
    (stored : ∀ slot ∈ slots, slot.orderHint < 2 ^ sequence.inter.orderHintBits) {orderHint : Nat}
    (short : orderHint < 2 ^ sequence.inter.orderHintBits) :
    ∃ distance, distances sequence slots orderHint = .ok distance ∧ ∀ i : Fin 8,
      IsDistance sequence.inter.orderHintBits (slots.get i).orderHint orderHint
        (distance.get i) := by
  have widest : 2 ^ sequence.inter.orderHintBits ≤ 2 ^ maxOrderHintBits :=
    Nat.pow_le_pow_right (by decide) inRange.short
  let far (slot : RefSlot) : Int :=
    Int.bmod (slot.orderHint - orderHint) (2 ^ sequence.inter.orderHintBits)
  refine ⟨slots.map far, Checked.mapM_vector_of_ok fun slot member => ?_, fun i => ?_⟩
  · exact relativeDistance_eq_ok (inRange.present present) inRange.short
      (Nat.lt_of_lt_of_le (stored slot member) widest) (Nat.lt_of_lt_of_le short widest)
  · have here : (slots.map far).get i = far (slots.get i) := Vector.getElem_map far i.isLt
    rw [here]
    exact isDistance_bmod (inRange.present present) _ _

/-- What comes of short signalling is what is completed from the coded slots. -/
theorem shortSignaling_run (present : sequence.inter.orderHint = true) {slots : RefSlots}
    {orderHint : Nat} {distance : Vector Int 8}
    (known : distances sequence slots orderHint = .ok distance) (lastSlot goldenSlot : Fin 8)
    (pos : Nat) (rest : Bits) :
    shortSignaling sequence slots orderHint
        ⟨⟨pos, shortBits lastSlot goldenSlot ++ rest⟩, slots⟩ =
      match References.complete distance.get lastSlot goldenSlot with
      | .ok chosen => .ok (some chosen) ⟨⟨pos + 7, rest⟩, slots⟩
      | .error error => .error (.raised (.frame error)) ⟨⟨pos + 7, rest⟩, slots⟩ := by
  have flag : Read.Yields (Read.bitIf sequence.inter.orderHint) pos [true] true := by
    rw [present]
    exact fun _ => rfl
  have opened := Yields.lift flag slots (Bits.ofNat 3 lastSlot ++ (Bits.ofNat 3 goldenSlot ++ rest))
  have first := Yields.lift (slotIndex_yields lastSlot (pos + 1)) slots
    (Bits.ofNat 3 goldenSlot ++ rest)
  have second := Yields.lift (slotIndex_yields goldenSlot (pos + 1 + 3)) slots rest
  rw [List.length_singleton] at opened
  rw [Bits.length_ofNat] at first second
  rw [shortSignaling, shortBits, List.append_assoc, List.append_assoc, Step.bind_of_ok opened,
    if_pos rfl, Step.bind_of_ok first, Step.bind_of_ok second, known]
  have measured : (liftM (Except.ok distance : Except Fault _) : ReadFrame (Vector Int 8))
      ⟨⟨pos + 7, rest⟩, slots⟩ = .ok distance ⟨⟨pos + 7, rest⟩, slots⟩ := rfl
  rw [Step.bind_of_ok measured]
  cases References.complete distance.get lastSlot goldenSlot with
  | ok chosen => rfl
  | error cause => rfl

/-- For every sequence with order hints, every hint of the frame and of the slots and every two
    coded slots, short signalling is refused exactly where one of the coded slots does not lie in
    the past, and otherwise yields the references that follow. -/
theorem shortSignaling_follows {header : ObuHeader} {payload : Bytes} {reader : BitReader}
    (parsed : SequenceHeader.parse header payload = .ok sequence reader)
    (present : sequence.inter.orderHint = true) {slots : RefSlots}
    (stored : ∀ slot ∈ slots, slot.orderHint < 2 ^ sequence.inter.orderHintBits) {orderHint : Nat}
    (short : orderHint < 2 ^ sequence.inter.orderHintBits) (lastSlot goldenSlot : Fin 8) (pos : Nat)
    (rest : Bits) :
    ∃ distance : Fin 8 → Int,
      (∀ i : Fin 8, IsDistance sequence.inter.orderHintBits (slots.get i).orderHint orderHint
        (distance i)) ∧
      match shortSignaling sequence slots orderHint
        ⟨⟨pos, shortBits lastSlot goldenSlot ++ rest⟩, slots⟩ with
      | .ok found behind =>
        distance lastSlot < 0 ∧ distance goldenSlot < 0 ∧ behind = ⟨⟨pos + 7, rest⟩, slots⟩ ∧
          ∃ later given chosen, found = some chosen ∧
            References.Follows distance lastSlot goldenSlot later given chosen
      | .error cause behind =>
        behind = ⟨⟨pos + 7, rest⟩, slots⟩ ∧
          (0 ≤ distance lastSlot ∧ cause = .raised (.frame .lastNotPast) ∨
            distance lastSlot < 0 ∧ 0 ≤ distance goldenSlot ∧
              cause = .raised (.frame .goldenNotPast)) := by
  have inRange := (SequenceHeader.parse_inRange parsed).inter
  obtain ⟨distance, known, measured⟩ := distances_measured inRange present stored short
  refine ⟨distance.get, measured, ?_⟩
  rw [shortSignaling_run present known lastSlot goldenSlot pos rest]
  by_cases lastPast : distance.get lastSlot < 0
  · by_cases goldenPast : distance.get goldenSlot < 0
    · obtain ⟨later, given, chosen, completed, follows⟩ :=
        @References.complete_follows distance.get lastSlot goldenSlot lastPast goldenPast
      rw [completed]
      exact ⟨lastPast, goldenPast, rfl, later, given, chosen, rfl, follows⟩
    · have ahead : 0 ≤ distance.get goldenSlot := Int.not_lt.1 goldenPast
      rw [References.complete, if_neg (Int.not_le.2 lastPast), if_pos ahead]
      exact ⟨rfl, .inr ⟨lastPast, ahead, rfl⟩⟩
  · have ahead : 0 ≤ distance.get lastSlot := Int.not_lt.1 lastPast
    rw [References.complete, if_pos ahead]
    exact ⟨rfl, .inl ⟨ahead, rfl⟩⟩

/-- Slots with the order hints from zero on. -/
def inOrder : RefSlots :=
  #v[0, 1, 2, 3, 4, 5, 6, 7].map fun hint => { RefSlot.empty with valid := true, orderHint := hint }

/-- With hints of three bits, slots 1 to 4 lie in the past of a frame with hint 5. The coded slots 4
    and 1 leave two of them, and of the others slot 0 is shown last. Slot 6 cannot be coded. -/
theorem shortSignaling_follows_in_order :
    ∃ sequence reader,
      SequenceHeader.parse ⟨.sequenceHeader, none, none⟩
        [0x00, 0x00, 0x00, 0x03, 0x37, 0xFF, 0xF0, 0x20, 0x26, 0x80, 0x04] = .ok sequence reader ∧
      sequence.inter.orderHint = true ∧
      (∀ slot ∈ inOrder, slot.orderHint < 2 ^ sequence.inter.orderHintBits) ∧
      5 < 2 ^ sequence.inter.orderHintBits ∧
      (∃ distance later given, shortSignaling sequence inOrder 5 ⟨⟨0, shortBits 4 1⟩, inOrder⟩ =
          .ok (some #v[4, 3, 2, 1, 5, 6, 0]) ⟨⟨7, []⟩, inOrder⟩ ∧
        References.Follows distance 4 1 later given #v[4, 3, 2, 1, 5, 6, 0]) ∧
      shortSignaling sequence inOrder 5 ⟨⟨0, shortBits 6 0⟩, inOrder⟩ =
        .error (.raised (.frame .lastNotPast)) ⟨⟨7, []⟩, inOrder⟩ := by
  have hint : (inOrder.get 6).orderHint = 6 := by decide +kernel
  have facts : Step.Succeeds (fun sequence _ => sequence.inter.orderHint = true ∧
      sequence.inter.orderHintBits = 3 ∧
      Step.Succeeds (fun found _ => found = some #v[4, 3, 2, 1, 5, 6, 0])
        (shortSignaling sequence inOrder 5 ⟨⟨0, shortBits 4 1⟩, inOrder⟩))
      (SequenceHeader.parse ⟨.sequenceHeader, none, none⟩
        [0x00, 0x00, 0x00, 0x03, 0x37, 0xFF, 0xF0, 0x20, 0x26, 0x80, 0x04]) := by
    decide +kernel
  obtain ⟨sequence, reader, parsed, present, three, evaluated⟩ := facts.eq_ok
  have stored : ∀ slot ∈ inOrder, slot.orderHint < 2 ^ sequence.inter.orderHintBits := by
    rw [three]
    decide +kernel
  have short : 5 < 2 ^ sequence.inter.orderHintBits := by
    rw [three]
    decide
  refine ⟨sequence, reader, parsed, present, stored, short, ?_, ?_⟩
  · obtain ⟨distance, -, outcome⟩ := shortSignaling_follows parsed present stored short 4 1 0 []
    obtain ⟨_, behind, run, rfl⟩ := evaluated.eq_ok
    rw [List.append_nil, run] at outcome
    obtain ⟨-, -, rfl, later, given, _, same, follows⟩ := outcome
    obtain rfl := Option.some.inj same
    exact ⟨distance, later, given, run, follows⟩
  · obtain ⟨distance, known, outcome⟩ := shortSignaling_follows parsed present stored short 6 0 0 []
    have ahead : 0 ≤ distance 6 := by
      obtain ⟨low, high, around⟩ := known 6
      rw [three] at low high around
      rw [hint] at around
      omega
    rw [List.append_nil] at outcome
    split at outcome
    · exact absurd outcome.1 (Int.not_lt.2 ahead)
    next run =>
      obtain ⟨rfl, ⟨-, rfl⟩ | ⟨past, -, -⟩⟩ := outcome
      · exact run
      · exact absurd past (Int.not_lt.2 ahead)

end ReadFrame

end Av1Tiling
