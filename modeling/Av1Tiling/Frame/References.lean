import Av1Tiling.Frame.Slot
import Av1Tiling.ObuError

/-!
# References by short signalling

An inter frame names seven references. With short signalling only two are coded and the others
follow from the order hints: first the frames that are shown later, then those shown before, and
for what is left the earliest of all.
-/

namespace Av1Tiling

/-- The slots of the seven references of a frame. -/
abbrev RefIndices := Vector (Fin 8) 7

/-- The distance from order hint `b` to order hint `a` with its sign, where hints of `bits` bits
    wrap around. -/
def relativeDistance (bits a b : Nat) : Except Fault Int := do
  let half ← Checked.shift 31 (← Checked.sub bits 1)
  return Int.bmod (← Checked.signedSub a b) (2 * half)

namespace References

/-- Slots chosen so far for the seven references. -/
abbrev Choice := Vector (Option (Fin 8)) 7

def last : Fin 7 := 0
def last2 : Fin 7 := 1
def last3 : Fin 7 := 2
def golden : Fin 7 := 3
def bwdref : Fin 7 := 4
def altref2 : Fin 7 := 5
def altref : Fin 7 := 6

/-- The slots of which nothing is known but that they meet `p`, lowest first. -/
def slotsWhere (p : Fin 8 → Bool) : List (Fin 8) :=
  (List.finRange 8).filter p

/-- The slot of greatest distance, the highest of several. -/
def latest? (distance : Fin 8 → Int) (slots : List (Fin 8)) : Option (Fin 8) :=
  slots.foldl (fun best slot =>
    match best with
    | some kept => if distance slot < distance kept then some kept else some slot
    | none => some slot) none

/-- The slot of least distance, the lowest of several. -/
def earliest? (distance : Fin 8 → Int) (slots : List (Fin 8)) : Option (Fin 8) :=
  slots.foldl (fun best slot =>
    match best with
    | some kept => if distance slot < distance kept then some slot else some kept
    | none => some slot) none

namespace Choice

/-- Only the two coded references are chosen. -/
def coded (lastSlot goldenSlot : Fin 8) : Choice :=
  ((Vector.replicate 7 none).set last (some lastSlot)).set golden (some goldenSlot)

/-- Some reference has the slot. -/
def uses (choice : Choice) (slot : Fin 8) : Bool :=
  choice.toList.contains (some slot)

/-- The choice with `slot`, if there is one, for a reference. -/
def assign (choice : Choice) (reference : Fin 7) : Option (Fin 8) → Choice
  | some slot => choice.set reference (some slot)
  | none => choice

/-- Chooses the latest unused slot that is not in the past. -/
def latestBackward (distance : Fin 8 → Int) (choice : Choice) (reference : Fin 7) : Choice :=
  choice.assign reference <| latest? distance <|
    slotsWhere fun slot => !choice.uses slot && 0 ≤ distance slot

/-- Chooses the earliest unused slot that is not in the past. -/
def earliestBackward (distance : Fin 8 → Int) (choice : Choice) (reference : Fin 7) : Choice :=
  choice.assign reference <| earliest? distance <|
    slotsWhere fun slot => !choice.uses slot && 0 ≤ distance slot

/-- Chooses the latest unused slot in the past, unless the reference has one. -/
def latestForward (distance : Fin 8 → Int) (choice : Choice) (reference : Fin 7) : Choice :=
  if choice[reference].isSome then
    choice
  else
    choice.assign reference <| latest? distance <|
      slotsWhere fun slot => !choice.uses slot && distance slot < 0

end Choice

/-- The slots of all references, from the distances of the slots to the frame and the slots of the
    two coded references, which have to lie in the past. -/
def complete (distance : Fin 8 → Int) (lastSlot goldenSlot : Fin 8) :
    Except FrameError RefIndices := do
  if 0 ≤ distance lastSlot then throw .lastNotPast
  if 0 ≤ distance goldenSlot then throw .goldenNotPast
  let choice := Choice.coded lastSlot goldenSlot
  let choice := choice.latestBackward distance altref
  let choice := [bwdref, altref2].foldl (Choice.earliestBackward distance) choice
  let choice := [last2, last3, bwdref, altref2, altref].foldl (Choice.latestForward distance) choice
  let fallback := (earliest? distance (List.finRange 8)).getD 0
  return choice.map (·.getD fallback)

end References

end Av1Tiling
