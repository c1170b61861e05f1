import Av1Tiling.Proofs.Decoder

/-!
# What an OBU turns out to hold

Everything that one OBU can do to a decoder (`Outcome`), and a unit as the row of its OBUs
(`Interprets`). Whatever is known of a unit that was parsed follows from these.
-/

namespace Av1Tiling.Decode

/-- What an OBU holds over `state`, and the state behind it. -/
inductive Outcome (state : DecoderState) (obu : Obu) : ObuContent → DecoderState → Prop
  | temporalDelimiter (type : obu.header.type = .temporalDelimiter) :
      Outcome state obu .temporalDelimiter { state with pending := none }
  | sequenceHeader {sequence : SequenceHeader} {reader : BitReader}
      (type : obu.header.type = .sequenceHeader)
      (parsed : SequenceHeader.parse obu.header obu.payload = .ok sequence reader) :
      Outcome state obu (.sequenceHeader sequence) { state with sequence := some sequence }
  | frameHeaderCopy
      (type : obu.header.type = .frameHeader ∨ obu.header.type = .redundantFrameHeader)
      (waiting : state.pending.isSome = true) : Outcome state obu .frameHeaderCopy state
  | existingFrame {sequence : SequenceHeader} {frame : FrameHeader} {kept : RefSlots}
      (type : obu.header.type = .frameHeader ∨ obu.header.type = .redundantFrameHeader)
      (idle : state.pending = none) (present : state.sequence = some sequence)
      (parsed : FrameHeader.parse sequence obu.header obu.payload state.slots = .ok frame kept)
      (shown : frame.showExisting = true) :
      Outcome state obu (.frameHeader frame) { state with slots := frame.updateSlots kept }
  | frameHeader {sequence : SequenceHeader} {frame : FrameHeader} {kept : RefSlots}
      (type : obu.header.type = .frameHeader ∨ obu.header.type = .redundantFrameHeader)
      (idle : state.pending = none) (present : state.sequence = some sequence)
      (parsed : FrameHeader.parse sequence obu.header obu.payload state.slots = .ok frame kept)
      (own : frame.showExisting = false) :
      Outcome state obu (.frameHeader frame) { state with slots := kept, pending := some frame }
  | tileGroup {frame : FrameHeader} {layout : TileLayout} {group : TileGroup}
      (type : obu.header.type = .tileGroup) (waiting : state.pending = some frame)
      (cut : frame.layout = some layout)
      (parsed : TileGroup.parse obu.payload layout = .ok group)
      (more : group.endsFrame layout = false) : Outcome state obu (.tileGroup group) state
  | lastTileGroup {frame : FrameHeader} {layout : TileLayout} {group : TileGroup}
      (type : obu.header.type = .tileGroup) (waiting : state.pending = some frame)
      (cut : frame.layout = some layout)
      (parsed : TileGroup.parse obu.payload layout = .ok group)
      (last : group.endsFrame layout = true) :
      Outcome state obu (.tileGroup group)
        { state with slots := frame.updateSlots state.slots, pending := none }
  | frame {sequence : SequenceHeader} {frame : FrameHeader} {kept : RefSlots}
      (type : obu.header.type = .frame) (present : state.sequence = some sequence)
      (parsed : FrameHeader.parse sequence obu.header obu.payload state.slots = .ok frame kept) :
      Outcome state obu (.frame frame)
        { state with slots := frame.updateSlots kept, pending := none }
  | other (type : obu.header.type = .metadata ∨ obu.header.type = .tileList ∨
        obu.header.type = .padding ∨ ∃ code, obu.header.type = .reserved code) :
      Outcome state obu .other state

variable {state behind : DecoderState} {obu : Obu}

theorem frameHeader_eq_ok {frame : FrameHeader} :
    frameHeader obu state = .ok frame behind ↔
      ∃ sequence kept, state.sequence = some sequence ∧
        FrameHeader.parse sequence obu.header obu.payload state.slots = .ok frame kept ∧
        behind = { state with slots := kept } := by
  unfold frameHeader
  cases present : state.sequence with
  | none =>
    constructor
    · rintro ⟨⟩
    · rintro ⟨_, _, ⟨⟩, _⟩
  | some sequence =>
    cases run : FrameHeader.parse sequence obu.header obu.payload state.slots with
    | ok found kept =>
      simp only [run]
      constructor
      · rintro ⟨⟩
        exact ⟨sequence, kept, rfl, run, by rw [← present]⟩
      · rintro ⟨_, _, ⟨⟩, other, rfl⟩
        rw [run] at other
        cases other
        rw [← present]
    | error cause kept =>
      simp only [run]
      constructor
      · rintro ⟨⟩
      · rintro ⟨_, _, ⟨⟩, other, -⟩
        rw [run] at other
        cases other

theorem sequenceHeader_outcome {content : SequenceHeader}
    (type : obu.header.type = .sequenceHeader)
    (run : sequenceHeader obu state = .ok content behind) :
    Outcome state obu (.sequenceHeader content) behind := by
  unfold sequenceHeader at run
  cases parsed : SequenceHeader.parse obu.header obu.payload with
  | ok sequence reader =>
    rw [parsed] at run
    cases run
    exact .sequenceHeader type parsed
  | error cause reader =>
    rw [parsed] at run
    cases run

theorem startFrame_outcome {content : FrameHeader}
    (type : obu.header.type = .frameHeader ∨ obu.header.type = .redundantFrameHeader)
    (idle : state.pending = none) (run : startFrame obu state = .ok content behind) :
    Outcome state obu (.frameHeader content) behind := by
  obtain ⟨frame, between, first, run⟩ := Step.bind_eq_ok.1 run
  obtain ⟨sequence, kept, present, parsed, rfl⟩ := frameHeader_eq_ok.1 first
  by_cases shown : frame.showExisting = true
  · rw [if_pos shown] at run
    obtain ⟨_, _, second, run⟩ := Step.bind_eq_ok.1 run
    cases second
    cases run
    exact .existingFrame type idle present parsed shown
  · rw [if_neg shown] at run
    obtain ⟨_, _, second, run⟩ := Step.bind_eq_ok.1 run
    cases second
    cases run
    exact .frameHeader type idle present parsed (by simpa using shown)

theorem tileGroup_outcome {content : TileGroup} (type : obu.header.type = .tileGroup)
    (run : tileGroup obu state = .ok content behind) :
    Outcome state obu (.tileGroup content) behind := by
  obtain ⟨_, _, first, run⟩ := Step.bind_eq_ok.1 run
  cases first
  cases waiting : state.pending with
  | none =>
    rw [waiting] at run
    cases run
  | some frame =>
    rw [waiting] at run
    cases cut : frame.layout with
    | none =>
      simp only [cut] at run
      cases run
    | some layout =>
      simp only [cut] at run
      obtain ⟨group, between, second, run⟩ := Step.bind_eq_ok.1 run
      cases parsed : TileGroup.parse obu.payload layout with
      | error cause =>
        rw [parsed] at second
        cases second
      | ok found =>
        rw [parsed] at second
        cases second
        by_cases last : group.endsFrame layout = true
        · rw [if_pos last] at run
          obtain ⟨_, _, third, run⟩ := Step.bind_eq_ok.1 run
          cases third
          cases run
          exact .lastTileGroup type waiting cut parsed last
        · rw [if_neg last] at run
          cases run
          exact .tileGroup type waiting cut parsed (by simpa using last)

/-- Nothing else can happen. -/
theorem interpret_outcome {content : ObuContent}
    (run : interpret obu state = .ok content behind) : Outcome state obu content behind := by
  have header : (obu.header.type = .frameHeader ∨ obu.header.type = .redundantFrameHeader) →
      (get >>= fun state : DecoderState => if state.pending.isSome then pure .frameHeaderCopy
        else startFrame obu >>= fun frame => pure (.frameHeader frame) : Decode ObuContent) state =
        .ok content behind → Outcome state obu content behind := by
    intro type run
    rw [Step.get_bind] at run
    cases waiting : state.pending with
    | some frame =>
      have present : state.pending.isSome = true := by
        rw [waiting]
        rfl
      rw [if_pos present] at run
      cases run
      exact .frameHeaderCopy type present
    | none =>
      have absent : ¬state.pending.isSome = true := by
        rw [waiting]
        decide
      rw [if_neg absent] at run
      obtain ⟨frame, _, first, run⟩ := Step.bind_eq_ok.1 run
      cases run
      exact startFrame_outcome type waiting first
  unfold interpret at run
  cases type : obu.header.type with
  | temporalDelimiter =>
    rw [type] at run
    cases run
    exact .temporalDelimiter type
  | sequenceHeader =>
    rw [type] at run
    obtain ⟨sequence, _, first, run⟩ := Step.bind_eq_ok.1 run
    cases run
    exact sequenceHeader_outcome type first
  | frameHeader =>
    rw [type] at run
    exact header (.inl type) run
  | redundantFrameHeader =>
    rw [type] at run
    exact header (.inr type) run
  | tileGroup =>
    rw [type] at run
    obtain ⟨group, _, first, run⟩ := Step.bind_eq_ok.1 run
    cases run
    exact tileGroup_outcome type first
  | frame =>
    rw [type] at run
    obtain ⟨frame, _, first, run⟩ := Step.bind_eq_ok.1 run
    obtain ⟨_, _, second, run⟩ := Step.bind_eq_ok.1 run
    cases second
    cases run
    obtain ⟨sequence, kept, present, parsed, rfl⟩ := frameHeader_eq_ok.1 first
    exact .frame type present parsed
  | metadata =>
    rw [type] at run
    cases run
    exact .other (.inl type)
  | tileList =>
    rw [type] at run
    cases run
    exact .other (.inr (.inl type))
  | padding =>
    rw [type] at run
    cases run
    exact .other (.inr (.inr (.inl type)))
  | reserved code =>
    rw [type] at run
    cases run
    exact .other (.inr (.inr (.inr ⟨code, type⟩)))

/-- A frame header that could be read is in range. -/
theorem Outcome.frame_inRange {frame : FrameHeader}
    (outcome : Outcome state obu (.frameHeader frame) behind) (inRange : state.InRange) :
    frame.InRange := by
  have parse {sequence : SequenceHeader} {kept : RefSlots}
      (present : state.sequence = some sequence)
      (parsed : FrameHeader.parse sequence obu.header obu.payload state.slots = .ok frame kept) :
      frame.InRange :=
    ((FrameHeader.parse_ensures (inRange.sequence _ present) _ _).of_ok inRange.slots parsed).1
  cases outcome with
  | existingFrame type idle present parsed => exact parse present parsed
  | frameHeader type idle present parsed => exact parse present parsed

theorem startFrame_eq_ok {sequence : SequenceHeader} {frame : FrameHeader} {kept : RefSlots}
    (present : state.sequence = some sequence)
    (parsed : FrameHeader.parse sequence obu.header obu.payload state.slots = .ok frame kept) :
    startFrame obu state = .ok frame
      (if frame.showExisting then { state with slots := frame.updateSlots kept }
        else { state with slots := kept, pending := some frame }) := by
  rw [startFrame, Step.bind_of_ok (frameHeader_eq_ok.2 ⟨sequence, kept, present, parsed, rfl⟩)]
  by_cases shown : frame.showExisting = true
  · rw [if_pos shown, if_pos shown]
    rfl
  · rw [if_neg shown, if_neg shown]
    rfl

theorem tileGroup_eq_ok {frame : FrameHeader} {layout : TileLayout} {group : TileGroup}
    (waiting : state.pending = some frame) (cut : frame.layout = some layout)
    (parsed : TileGroup.parse obu.payload layout = .ok group) :
    tileGroup obu state = .ok group
      (if group.endsFrame layout then
        { state with slots := frame.updateSlots state.slots, pending := none } else state) := by
  rw [tileGroup, Step.get_bind, waiting]
  simp only [cut, parsed]
  by_cases last : group.endsFrame layout = true
  · rw [if_pos last]
    show (if group.endsFrame layout then _ else _ : Decode TileGroup) state = _
    rw [if_pos last]
    rfl
  · rw [if_neg last]
    show (if group.endsFrame layout then _ else _ : Decode TileGroup) state = _
    rw [if_neg last]
    rfl

/-- What an OBU can hold it is found to hold. -/
theorem Outcome.interpret_eq_ok {content : ObuContent} (outcome : Outcome state obu content behind) :
    interpret obu state = .ok content behind := by
  have header {content : ObuContent}
      (type : obu.header.type = .frameHeader ∨ obu.header.type = .redundantFrameHeader)
      (run : (if state.pending.isSome then pure .frameHeaderCopy
        else startFrame obu >>= fun frame => pure (.frameHeader frame) : Decode ObuContent) state =
        .ok content behind) : interpret obu state = .ok content behind := by
    rw [interpret]
    rcases type with type | type <;> rw [type] <;> exact run
  cases outcome with
  | temporalDelimiter type =>
    rw [interpret, type]
    rfl
  | @sequenceHeader sequence reader type parsed =>
    have run : Decode.sequenceHeader obu state =
        .ok sequence { state with sequence := some sequence } := by
      rw [Decode.sequenceHeader, parsed]
    rw [interpret, type]
    exact Step.bind_of_ok run
  | frameHeaderCopy type waiting =>
    refine header type ?_
    rw [if_pos waiting]
    rfl
  | existingFrame type idle present parsed shown =>
    refine header type ?_
    have run := startFrame_eq_ok present parsed
    rw [if_pos shown] at run
    rw [if_neg (by rw [idle]; decide)]
    exact Step.bind_of_ok run
  | frameHeader type idle present parsed own =>
    refine header type ?_
    have run := startFrame_eq_ok present parsed
    rw [own] at run
    rw [if_neg (by rw [idle]; decide)]
    exact Step.bind_of_ok run
  | tileGroup type waiting cut parsed more =>
    have run := tileGroup_eq_ok waiting cut parsed
    rw [more] at run
    rw [interpret, type]
    exact Step.bind_of_ok run
  | lastTileGroup type waiting cut parsed last =>
    have run := tileGroup_eq_ok waiting cut parsed
    rw [last] at run
    rw [interpret, type]
    exact Step.bind_of_ok run
  | frame type present parsed =>
    have run := frameHeader_eq_ok.2 ⟨_, _, present, parsed, rfl⟩
    rw [interpret, type]
    exact Step.bind_of_ok run
  | other type =>
    rcases type with type | type | type | ⟨code, type⟩ <;> rw [interpret, type] <;> rfl

/-- The OBUs of `parsed` are interpreted one after the other. -/
inductive Interprets : DecoderState → List ParsedObu → DecoderState → Prop
  | nil (state : DecoderState) : Interprets state [] state
  | cons {state between behind : DecoderState} {parsed : ParsedObu} {rest : List ParsedObu}
      (run : interpret parsed.obu state = .ok parsed.content between)
      (later : Interprets between rest behind) : Interprets state (parsed :: rest) behind

theorem Interprets.cons_iff {parsed : ParsedObu} {rest : List ParsedObu} :
    Interprets state (parsed :: rest) behind ↔ ∃ between,
      interpret parsed.obu state = .ok parsed.content between ∧ Interprets between rest behind := by
  constructor
  · rintro (_ | ⟨run, later⟩)
    exact ⟨_, run, later⟩
  · rintro ⟨between, run, later⟩
    exact .cons run later

/-- A unit that can be parsed is the row of its OBUs. -/
theorem parseUnit_interprets {unit : Bytes} {parsed : List ParsedObu}
    (run : parseUnit unit state = .ok parsed behind) :
    (∀ item ∈ parsed, item.obu.Within unit) ∧ Interprets state parsed behind := by
  have sound := (Obu.readAll_ends unit).2
  unfold parseUnit at run
  revert run sound
  generalize (Obu.readAll unit).1 = items
  intro run sound
  induction items generalizing state parsed with
  | nil =>
    cases run
    exact ⟨by rintro _ ⟨⟩, .nil _⟩
  | cons item rest ih =>
    rw [List.mapM_cons] at run
    obtain ⟨first, between, head, run⟩ := Step.bind_eq_ok.1 run
    obtain ⟨later, _, second, run⟩ := Step.bind_eq_ok.1 run
    cases run
    have others := ih second fun item member => sound item (.tail _ member)
    cases item with
    | error cause => cases head
    | ok obu =>
      have alone : (interpret obu >>= fun content => pure (⟨obu, content⟩ : ParsedObu)) state =
          .ok first between := head
      obtain ⟨content, _, interpreted, last⟩ := Step.bind_eq_ok.1 alone
      cases last
      have within : obu.Within unit := sound (.ok obu) List.mem_cons_self
      exact ⟨List.forall_mem_cons.2 ⟨within, others.1⟩, .cons interpreted others.2⟩

/-- A unit that can be parsed has no other OBUs than those that are found. -/
theorem parseUnit_reads {unit : Bytes} {parsed : List ParsedObu}
    (run : parseUnit unit state = .ok parsed behind) :
    (Obu.readAll unit).1 = (parsed.map ParsedObu.obu).map .ok := by
  unfold parseUnit at run
  generalize (Obu.readAll unit).1 = items at run ⊢
  induction items generalizing state parsed with
  | nil =>
    cases run
    rfl
  | cons item rest ih =>
    rw [List.mapM_cons] at run
    obtain ⟨first, between, head, run⟩ := Step.bind_eq_ok.1 run
    obtain ⟨later, _, second, run⟩ := Step.bind_eq_ok.1 run
    cases run
    cases item with
    | error cause => cases head
    | ok obu =>
      have alone : (interpret obu >>= fun content => pure (⟨obu, content⟩ : ParsedObu)) state =
          .ok first between := head
      obtain ⟨content, _, -, last⟩ := Step.bind_eq_ok.1 alone
      cases last
      rw [ih second]
      rfl

/-- A unit is parsed as its OBUs are interpreted, if all of them can be read. -/
theorem Interprets.parseUnit_eq_ok {unit : Bytes} {parsed : List ParsedObu}
    (interprets : Interprets state parsed behind)
    (read : (Obu.readAll unit).1 = (parsed.map ParsedObu.obu).map .ok) :
    parseUnit unit state = .ok parsed behind := by
  rw [parseUnit, read]
  clear read
  induction interprets with
  | nil => rfl
  | @cons state between behind parsed rest run later ih =>
    rw [List.map_cons, List.map_cons, List.mapM_cons]
    have first : (interpret parsed.obu >>= fun content =>
        pure (⟨parsed.obu, content⟩ : ParsedObu)) state = .ok parsed between :=
      Step.bind_of_ok run
    exact (Step.bind_of_ok first).trans (Step.bind_of_ok ih)

end Av1Tiling.Decode
