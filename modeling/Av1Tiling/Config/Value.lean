/-!
# Configuration values

The trees that configurations are written as. A configuration with named fields is an object, or a
list of its fields in their order of which the last ones may be left out.
-/

namespace Av1Tiling

/-- A configuration as it is written. -/
inductive ConfigValue
  | null
  | flag (value : Bool)
  | int (value : Int)
  /-- A number that is written with a fraction or an exponent. -/
  | fraction
  | text (value : String)
  | list (items : List ConfigValue)
  | object (members : List (String × ConfigValue))
  deriving Repr

namespace ConfigValue

/-- A number that is not negative and below `bound`. -/
def natBelow? (bound : Nat) : ConfigValue → Option Nat
  | int value => if 0 ≤ value ∧ value < bound then some value.toNat else none
  | _ => none

/-- A number of 32 bits. -/
def word? : ConfigValue → Option Nat :=
  natBelow? (2 ^ 32)

/-- A number of 64 bits. -/
def size? : ConfigValue → Option Nat :=
  natBelow? (2 ^ 64)

/-- The values of the named fields, as far as they are there. Members of other names do not
    count; items for which there is no field are an error. -/
def fields? (names : List String) : ConfigValue → Option (List (Option ConfigValue))
  | object members => some (names.map (members.lookup ·))
  | list items =>
    if items.length ≤ names.length then
      some (items.map some ++ List.replicate (names.length - items.length) none)
    else
      none
  | _ => none

/-- The value of a field that has to be there. -/
def required? {α : Type} (decode : ConfigValue → Option α) (field : Option ConfigValue) :
    Option α :=
  field.bind decode

/-- The value of a field that has a default. -/
def orDefault? {α : Type} (decode : ConfigValue → Option α) (default : α) :
    Option ConfigValue → Option α
  | none => some default
  | some value => decode value

/-- The value of a field that may be null or left out. -/
def optional? {α : Type} (decode : ConfigValue → Option α) :
    Option ConfigValue → Option (Option α)
  | none | some null => some none
  | some value => some <$> decode value

end ConfigValue

end Av1Tiling
