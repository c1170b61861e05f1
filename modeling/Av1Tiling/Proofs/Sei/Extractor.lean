import Av1Tiling.Proofs.Sei.Emulation
import Av1Tiling.Proofs.Sei.Framing
import Av1Tiling.Sei.Extractor

/-!
# Payloads on their way through a NAL unit

The HDR payloads are read from their fields as they were written, wherever a field stands among the
others. Each message that is made of some payloads adds just its own to what was found before, so an
extractor finds in the messages what they were made of. Neither the framing nor the guard bytes of a
NAL unit get in the way.
-/

namespace Av1Tiling.Sei

/-! ## Fields -/

/-- A number that fits its field is found where it was put. -/
theorem numberAt_ofNatBE (size : Nat) {value : Nat} (fits : value < 256 ^ size)
    (front rest : Bytes) :
    numberAt (front ++ (Bytes.ofNatBE size value ++ rest)) front.length size = value := by
  have field : Bytes.slice (front ++ (Bytes.ofNatBE size value ++ rest)) front.length size =
      Bytes.ofNatBE size value := by
    rw [Bytes.slice, List.drop_left, List.take_left' (Bytes.length_ofNatBE size value)]
  rw [numberAt, field, Bytes.toNatBE_ofNatBE, Nat.mod_eq_of_lt fits]

namespace Chromaticity

/-- Both coordinates fit two bytes. -/
structure Fits (color : Chromaticity) : Prop where
  x : color.x < 2 ^ 16
  y : color.y < 2 ^ 16

@[simp] theorem length_encode (color : Chromaticity) : color.encode.length = 4 := by
  simp [encode]

theorem read_encode {color : Chromaticity} (fits : color.Fits) (front rest : Bytes) :
    read (front ++ (color.encode ++ rest)) front.length = color := by
  have x := numberAt_ofNatBE 2 fits.x front (Bytes.ofNatBE 2 color.y ++ rest)
  have y := numberAt_ofNatBE 2 fits.y (front ++ Bytes.ofNatBE 2 color.x) rest
  rw [List.length_append, Bytes.length_ofNatBE, List.append_assoc] at y
  rw [read, encode, List.append_assoc, x, y]

end Chromaticity

namespace MasteringDisplay

/-- All numbers fit their fields. -/
structure Fits (display : MasteringDisplay) : Prop where
  primaries : display.primaries.1.Fits ∧ display.primaries.2.1.Fits ∧ display.primaries.2.2.Fits
  whitePoint : display.whitePoint.Fits
  maxLuminance : display.maxLuminance < 2 ^ 32
  minLuminance : display.minLuminance < 2 ^ 32

@[simp] theorem length_encode (display : MasteringDisplay) : display.encode.length = byteSize := by
  simp [encode, byteSize]

theorem parse_encode {display : MasteringDisplay} (fits : display.Fits) :
    parse display.encode = .ok display := by
  obtain ⟨⟨first, second, third⟩, white, maxLuminance, minLuminance⟩ := display
  obtain ⟨⟨firstFits, secondFits, thirdFits⟩, whiteFits, maxFits, minFits⟩ := fits
  have size := length_encode ⟨(first, second, third), white, maxLuminance, minLuminance⟩
  -- each field behind those in front of it
  have atFirst := Chromaticity.read_encode firstFits [] (second.encode ++ (third.encode ++
    (white.encode ++ (Bytes.ofNatBE 4 maxLuminance ++ Bytes.ofNatBE 4 minLuminance))))
  have atSecond := Chromaticity.read_encode secondFits first.encode (third.encode ++
    (white.encode ++ (Bytes.ofNatBE 4 maxLuminance ++ Bytes.ofNatBE 4 minLuminance)))
  have atThird := Chromaticity.read_encode thirdFits (first.encode ++ second.encode)
    (white.encode ++ (Bytes.ofNatBE 4 maxLuminance ++ Bytes.ofNatBE 4 minLuminance))
  have atWhite := Chromaticity.read_encode whiteFits
    (first.encode ++ (second.encode ++ third.encode))
    (Bytes.ofNatBE 4 maxLuminance ++ Bytes.ofNatBE 4 minLuminance)
  have atMax := numberAt_ofNatBE 4 maxFits
    (first.encode ++ (second.encode ++ (third.encode ++ white.encode)))
    (Bytes.ofNatBE 4 minLuminance)
  have atMin := numberAt_ofNatBE 4 minFits
    (first.encode ++ (second.encode ++ (third.encode ++ (white.encode ++
      Bytes.ofNatBE 4 maxLuminance)))) []
  simp only [List.append_assoc, List.nil_append, List.append_nil, List.length_append,
    List.length_nil, Chromaticity.length_encode, Bytes.length_ofNatBE, Nat.reduceAdd]
    at atFirst atSecond atThird atWhite atMax atMin
  rw [parse, checkSize, if_pos size, Checked.bind_of_ok rfl, encode]
  simp only [List.append_assoc, atFirst, atSecond, atThird, atWhite, atMax, atMin]
  rfl

end MasteringDisplay

namespace ContentLightLevel

/-- Both numbers fit two bytes. -/
structure Fits (level : ContentLightLevel) : Prop where
  maxContent : level.maxContent < 2 ^ 16
  maxFrameAverage : level.maxFrameAverage < 2 ^ 16

@[simp] theorem length_encode (level : ContentLightLevel) : level.encode.length = byteSize := by
  simp [encode, byteSize]

theorem parse_encode {level : ContentLightLevel} (fits : level.Fits) :
    parse level.encode = .ok level := by
  have maxContent := numberAt_ofNatBE 2 fits.maxContent []
    (Bytes.ofNatBE 2 level.maxFrameAverage)
  have maxFrameAverage := numberAt_ofNatBE 2 fits.maxFrameAverage
    (Bytes.ofNatBE 2 level.maxContent) []
  rw [List.length_nil, List.nil_append] at maxContent
  rw [Bytes.length_ofNatBE, List.append_nil] at maxFrameAverage
  rw [parse, checkSize, if_pos level.length_encode, Checked.bind_of_ok rfl, encode, maxContent,
    maxFrameAverage]
  rfl

end ContentLightLevel

/-! ## One message -/

/-- The custom type is a number, and not one of the HDR payloads. -/
structure Config.Separate (config : Config) : Prop where
  fits : config.customType ≤ maxNumber
  display : config.customType ≠ MasteringDisplay.type
  level : config.customType ≠ ContentLightLevel.type

namespace Payloads

variable {config : Config}

/-- The HDR payloads fit their fields, and the sizes of the others can be told. -/
structure Fits (payloads : Payloads) : Prop where
  masteringDisplay : ∀ display ∈ payloads.masteringDisplay, display.Fits
  contentLightLevel : ∀ level ∈ payloads.contentLightLevel, level.Fits
  custom : ∀ payload ∈ payloads.custom, payload.length ≤ maxNumber

theorem add_display (config : Config) (found : Payloads) {display : MasteringDisplay}
    (fits : display.Fits) :
    found.add config ⟨MasteringDisplay.type, 0, display.encode⟩ =
      .ok { found with masteringDisplay := some display } := by
  rw [add, if_pos rfl, Checked.bind_of_ok (MasteringDisplay.parse_encode fits)]
  rfl

theorem add_level (config : Config) (found : Payloads) {level : ContentLightLevel}
    (fits : level.Fits) :
    found.add config ⟨ContentLightLevel.type, 0, level.encode⟩ =
      .ok { found with contentLightLevel := some level } := by
  have other : ContentLightLevel.type ≠ MasteringDisplay.type := by decide
  rw [add, if_neg other, if_pos rfl, Checked.bind_of_ok (ContentLightLevel.parse_encode fits)]
  rfl

theorem add_custom (separate : config.Separate) (found : Payloads) (payload : Bytes) :
    found.add config ⟨config.customType, 0, payload⟩ =
      .ok { found with custom := found.custom ++ [payload] } := by
  rw [add, if_neg separate.display, if_neg separate.level, if_pos rfl]
  rfl

/-! ## All messages -/

/-- It does not matter where among the others a message stands. -/
theorem foldlM_add_placed (config : Config) (found : Payloads) (messages : List Message)
    (offset : Nat) :
    (Message.placed offset messages).foldlM (add config) found =
      messages.foldlM (add config) found := by
  induction messages generalizing found offset with
  | nil => rfl
  | cons message rest ih =>
    rw [Message.placed, List.foldlM_cons, List.foldlM_cons]
    have same : found.add config (message.placedAt offset) = found.add config message := rfl
    rw [same]
    exact bind_congr fun next => ih next _

theorem foldlM_add_custom (separate : config.Separate) (found : Payloads) (custom : List Bytes) :
    (custom.map fun payload => (⟨config.customType, 0, payload⟩ : Message)).foldlM (add config)
      found = .ok { found with custom := found.custom ++ custom } := by
  induction custom generalizing found with
  | nil => simp only [List.map_nil, List.foldlM_nil, List.append_nil]; rfl
  | cons payload rest ih =>
    rw [List.map_cons, List.foldlM_cons, Checked.bind_of_ok (add_custom separate found payload),
      ih, List.append_assoc]
    rfl

/-- The messages of some payloads, one after the other, add up to these payloads. -/
theorem foldlM_add_messages (separate : config.Separate) {payloads : Payloads}
    (fits : payloads.Fits) :
    (config.messages payloads).foldlM (add config) .empty = .ok payloads := by
  obtain ⟨display, level, custom⟩ := payloads
  have first : (display.map fun display =>
      (⟨MasteringDisplay.type, 0, display.encode⟩ : Message)).toList.foldlM (add config) .empty =
        .ok { empty with masteringDisplay := display } := by
    cases display with
    | none => rfl
    | some display =>
      have own := fits.masteringDisplay display rfl
      rw [Option.map_some, Option.toList_some, List.foldlM_cons,
        Checked.bind_of_ok (add_display config empty own)]
      rfl
  have second : (level.map fun level =>
      (⟨ContentLightLevel.type, 0, level.encode⟩ : Message)).toList.foldlM (add config)
        { empty with masteringDisplay := display } =
          .ok { empty with masteringDisplay := display, contentLightLevel := level } := by
    cases level with
    | none => rfl
    | some level =>
      have own := fits.contentLightLevel level rfl
      rw [Option.map_some, Option.toList_some, List.foldlM_cons,
        Checked.bind_of_ok (add_level config _ own)]
      rfl
  rw [Config.messages, List.foldlM_append, List.foldlM_append, first, Checked.bind_of_ok rfl,
    second, Checked.bind_of_ok rfl, foldlM_add_custom separate]
  rfl

end Payloads

namespace Config

variable {config : Config} {payloads : Payloads}

/-- The messages that are made of payloads can be written. -/
theorem messages_fit (separate : config.Separate) (fits : payloads.Fits) :
    ∀ message ∈ config.messages payloads, message.Fits := by
  intro message member
  rw [messages, List.mem_append, List.mem_append, Option.mem_toList, Option.mem_toList,
    Option.map_eq_some_iff, Option.map_eq_some_iff, List.mem_map] at member
  obtain (⟨display, -, rfl⟩ | ⟨level, -, rfl⟩) | ⟨payload, own, rfl⟩ := member
  · have type : MasteringDisplay.type ≤ maxNumber := by decide
    have size : display.encode.length ≤ maxNumber := by
      rw [MasteringDisplay.length_encode]
      decide
    exact ⟨type, size⟩
  · have type : ContentLightLevel.type ≤ maxNumber := by decide
    have size : level.encode.length ≤ maxNumber := by
      rw [ContentLightLevel.length_encode]
      decide
    exact ⟨type, size⟩
  · exact ⟨separate.fits, fits.custom payload own⟩

/-- What is extracted from messages that were written. -/
theorem extract_encodeAll (config : Config) {messages : List Message}
    (fits : ∀ message ∈ messages, message.Fits) :
    config.extract (Message.encodeAll messages) =
      messages.foldlM (Payloads.add config) .empty := by
  have whole : Message.encodeAll messages = messages.flatMap Message.encode ++ Message.ending 0 :=
    rfl
  have enough : messages.length ≤ (Message.encodeAll messages).length := by
    have few := Message.length_le_flatMap messages
    rw [whole, List.length_append]
    omega
  have read : Message.readAll (Message.encodeAll messages) =
      (Message.placed 0 messages).map .ok := by
    rw [Message.readAll, whole]
    exact Message.readMany_messages fits 0 0 (whole ▸ enough)
  rw [extract, read, List.foldlM_map]
  exact Payloads.foldlM_add_placed config .empty messages 0

/-- Payloads that are built into messages and carried in a NAL unit come out of it as they were. -/
theorem extract_build (separate : config.Separate) (fits : payloads.Fits) :
    config.extract (Emulation.remove (Emulation.insert (config.build payloads))) =
      .ok payloads := by
  rw [Emulation.remove_insert, build, extract_encodeAll config (messages_fit separate fits)]
  exact Payloads.foldlM_add_messages separate fits

/-- A display without any colors next to payloads of zeros, whose type is that of the stop byte. -/
def darkPayloads : Payloads where
  masteringDisplay := some ⟨(⟨0, 0⟩, ⟨0, 0⟩, ⟨0, 0⟩), ⟨15635, 16450⟩, 10000000, 0⟩
  contentLightLevel := none
  custom := [[], [0, 0], [0, 1]]

/-- The zeros need guard bytes, also where they reach into the next message. -/
theorem extract_build_dark :
    (⟨128⟩ : Config).Separate ∧ darkPayloads.Fits ∧
      ((⟨128⟩ : Config).build darkPayloads).length <
        (Emulation.insert ((⟨128⟩ : Config).build darkPayloads)).length ∧
      (⟨128⟩ : Config).extract
        (Emulation.remove (Emulation.insert ((⟨128⟩ : Config).build darkPayloads))) =
          .ok darkPayloads := by
  have separate : (⟨128⟩ : Config).Separate := ⟨by decide, by decide, by decide⟩
  have fits : darkPayloads.Fits := by
    refine ⟨?_, nofun, by decide⟩
    rintro _ ⟨⟩
    exact ⟨⟨⟨by decide, by decide⟩, ⟨by decide, by decide⟩, by decide, by decide⟩,
      ⟨by decide, by decide⟩, by decide, by decide⟩
  exact ⟨separate, fits, by decide, extract_build separate fits⟩

end Config

end Av1Tiling.Sei
