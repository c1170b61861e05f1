import Av1Tiling.Sei.Message
import Av1Tiling.Sei.Payload

/-!
# Extracting SEI payloads

Of all messages an extractor keeps the HDR payloads and those of one type more, which it does not
look into. `build` makes messages of what was kept.
-/

namespace Av1Tiling.Sei

/-- Which messages are kept besides the HDR payloads. -/
structure Config where
  customType : Nat
  deriving Repr, DecidableEq

/-- User data without a registered owner. -/
def Config.default : Config where
  customType := 5

/-- What was found. -/
structure Payloads where
  /-- The last of its kind. -/
  masteringDisplay : Option MasteringDisplay
  /-- The last of its kind. -/
  contentLightLevel : Option ContentLightLevel
  /-- The payloads of the custom type, in order. -/
  custom : List Bytes
  deriving Repr, DecidableEq

namespace Payloads

def empty : Payloads where
  masteringDisplay := none
  contentLightLevel := none
  custom := []

/-- Nothing was found. -/
def isEmpty (payloads : Payloads) : Bool :=
  payloads.masteringDisplay.isNone && payloads.contentLightLevel.isNone && payloads.custom.isEmpty

/-- Keeps what there is to keep in one message. -/
def add (config : Config) (payloads : Payloads) (message : Message) : Except Error Payloads := do
  if message.type = MasteringDisplay.type then
    return { payloads with masteringDisplay := some (← MasteringDisplay.parse message.payload) }
  else if message.type = ContentLightLevel.type then
    return { payloads with contentLightLevel := some (← ContentLightLevel.parse message.payload) }
  else if message.type = config.customType then
    return { payloads with custom := payloads.custom ++ [message.payload] }
  else
    return payloads

end Payloads

namespace Config

/-- What is found in some messages. -/
def extract (config : Config) (bytes : Bytes) : Except Error Payloads :=
  (Message.readAll bytes).foldlM (fun payloads item => do payloads.add config (← item)) .empty

/-- The messages of some payloads: the mastering display, the light level, then the others. -/
def messages (config : Config) (payloads : Payloads) : List Message :=
  (payloads.masteringDisplay.map fun display =>
      { type := MasteringDisplay.type, offset := 0, payload := display.encode }).toList
    ++ (payloads.contentLightLevel.map fun level =>
      { type := ContentLightLevel.type, offset := 0, payload := level.encode }).toList
    ++ payloads.custom.map fun payload => { type := config.customType, offset := 0, payload }

/-- The bytes of these messages. -/
def build (config : Config) (payloads : Payloads) : Bytes :=
  Message.encodeAll (config.messages payloads)

end Config

end Av1Tiling.Sei
