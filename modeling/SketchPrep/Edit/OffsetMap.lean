import SketchPrep.Edit.Basic
import SketchPrep.Edit.Halving

/-!
Edits made in one pass over a text, with the map between offsets before and after them.
-/

namespace SketchPrep

inductive Segment.Kind where
  | copy
  | insert
  | delete
  deriving DecidableEq, Repr

/-- A range of the input that became a range of the output. -/
structure Segment where
  kind : Segment.Kind
  inStart : Nat
  inLength : Nat
  outStart : Nat
  outLength : Nat
  deriving DecidableEq, Repr

namespace Segment

def inStop (s : Segment) : Nat := s.inStart + s.inLength

def outStop (s : Segment) : Nat := s.outStart + s.outLength

end Segment

structure OffsetMap where
  segments : List Segment
  inputSize : Nat
  outputSize : Nat
  deriving DecidableEq, Repr

namespace OffsetMap

/-- An offset inside a deleted range goes to where the deletion was made. -/
def toOutput (m : OffsetMap) (offset : Nat) : Nat :=
  if m.inputSize ≤ offset then m.outputSize
  else
    match m.segments[Halving.countBelow (·.inStop ≤ offset) m.segments]? with
    | some s => if s.kind = .copy then s.outStart + (offset - s.inStart) else s.outStart
    | none => m.outputSize

/-- An offset inside an inserted text goes to where the insertion was made. -/
def toInput (m : OffsetMap) (offset : Nat) : Nat :=
  if m.outputSize ≤ offset then m.inputSize
  else
    match m.segments[Halving.countBelow (·.outStop ≤ offset) m.segments]? with
    | some s => if s.kind = .copy then s.inStart + (offset - s.outStart) else s.inStart
    | none => m.inputSize

end OffsetMap

namespace Edit

/-- Edits are made by ascending offset, at one offset insertions first. -/
def precedes (a b : Edit) : Bool :=
  a.offset < b.offset || (a.offset = b.offset && (a.isInsert || !b.isInsert))

/-- The input from `pos` up to `stop`, if there is any. -/
def copy? (input : Text) (pos out stop : Nat) : Option (Text × List Segment) :=
  if pos < stop then
    (input.slice? pos stop).map fun t => (t, [⟨.copy, pos, stop - pos, out, stop - pos⟩])
  else some ([], [])

/-- Make `edits` in order, the input having been used up to `pos` and `out` bytes written. -/
def makeFrom? (input : Text) : Nat → Nat → List Edit → Option (Text × List Segment)
  | pos, out, [] => copy? input pos out input.size
  | pos, out, e :: es => do
    let (kept, segments) ← copy? input pos out e.offset
    let out := out + kept.size
    match e with
    | .insert o t =>
      let (rest, others) ← makeFrom? input (max pos o) (out + t.size) es
      return (kept ++ t ++ rest, segments ++ ⟨.insert, max pos o, 0, out, t.size⟩ :: others)
    | .delete o n =>
      let (rest, others) ← makeFrom? input (o + n) out es
      return (kept ++ rest, segments ++ ⟨.delete, o, n, out, 0⟩ :: others)

/-- The edited text and its offset map; undefined if an edit cuts a character or stands past the
end. -/
def makeAll? (input : Text) (edits : List Edit) : Option (Text × OffsetMap) := do
  let (output, segments) ← makeFrom? input 0 0 (edits.mergeSort precedes)
  return (output, ⟨segments, input.size, output.size⟩)

end Edit

end SketchPrep
