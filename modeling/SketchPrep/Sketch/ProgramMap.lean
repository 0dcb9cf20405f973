import SketchPrep.Edit.OffsetMap
import SketchPrep.Sketch.Tabs

/-!
From positions in the generated program to positions in the tabs, and back.
-/

namespace SketchPrep

/-- A generated range, as offsets into one tab and into the buffer. -/
structure TabRange where
  tabIndex : Nat
  startTabOffset : Nat
  stopTabOffset : Nat
  start : Nat
  stop : Nat
  deriving DecidableEq, Repr

structure ProgramMap where
  tabs : List Tab
  program : Text
  offsets : OffsetMap
  deriving DecidableEq, Repr

namespace ProgramMap

/-- The program that `edits` make of the joined tabs, with its offsets. -/
def ofEdits? (tabs : List Tab) (edits : List Edit) : Option ProgramMap :=
  (Edit.makeAll? (Tab.join tabs) edits).map fun (program, offsets) => ⟨tabs, program, offsets⟩

/-- A range never ends before it starts. -/
def toSketch (m : ProgramMap) (start stop : Nat) : TabRange :=
  let lo := m.offsets.toInput start
  let hi := max (m.offsets.toInput stop) lo
  let index := Tab.indexOfOffset m.tabs lo
  let tabStart := Tab.startOf m.tabs index
  ⟨index, lo - tabStart, hi - tabStart, lo, hi⟩

def toProgram (m : ProgramMap) (tabIndex offset : Nat) : Nat :=
  m.offsets.toOutput (Tab.startOf m.tabs tabIndex + offset)

/-- The line of the program, counted from 1; undefined if the offset falls inside a character. -/
def toProgramLine? (m : ProgramMap) (tabIndex offset : Nat) : Option Nat :=
  (m.program.split? (min (m.toProgram tabIndex offset) m.program.size)).map fun (before, _) =>
    before.count '\n' + 1

end ProgramMap

end SketchPrep
