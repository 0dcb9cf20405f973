import SketchPrep.Text.Position

/-!
A sketch is written in tabs and read as one buffer, in which a line feed follows each tab.
-/

namespace SketchPrep

structure Tab where
  name : String
  text : Text
  deriving DecidableEq, Repr

/-- A line in one tab, counted from 1. -/
structure TabLine where
  tabIndex : Nat
  line : Nat
  deriving DecidableEq, Repr

namespace Tab

def lineCount (t : Tab) : Nat := t.text.count '\n' + 1

/-- The tabs joined. -/
def join (tabs : List Tab) : Text := tabs.flatMap fun t => t.text ++ ['\n']

/-- Where each tab starts if the first one starts at `offset`. -/
def startsFrom (offset : Nat) : List Tab → List Nat
  | [] => []
  | t :: ts => offset :: startsFrom (offset + t.text.size + 1) ts

def starts (tabs : List Tab) : List Nat := startsFrom 0 tabs

/-- The tab that holds an offset of the buffer; the last one holds all that lies beyond. -/
def indexOfOffset (tabs : List Tab) (offset : Nat) : Nat :=
  ((starts tabs).takeWhile (· ≤ offset)).length - 1

def startOf (tabs : List Tab) (index : Nat) : Nat := ((starts tabs)[index]?).getD 0

/-- Line and column of an offset of the buffer; undefined inside a character. -/
def lineColumn? (tabs : List Tab) (offset : Nat) : Option (Nat × Nat) :=
  let text := join tabs
  (text.split? (min offset text.size)).map fun (before, _) => Text.lineColumn before

/-- The tab that holds the line `skipped` lines after the first line of the first tab. -/
def locateSkipped (index skipped : Nat) : List Tab → Option TabLine
  | [] => none
  | [_] => some ⟨index, skipped + 1⟩
  | t :: ts =>
    if skipped < t.lineCount then some ⟨index, skipped + 1⟩
    else locateSkipped (index + 1) (skipped - t.lineCount) ts

/-- The tab that holds a line of the buffer, and the line within it. -/
def locateLine (tabs : List Tab) (line : Nat) : TabLine :=
  (locateSkipped 0 (line - 1) tabs).getD ⟨0, line⟩

end Tab

end SketchPrep
