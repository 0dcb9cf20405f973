import SketchPrep.Diagnosis.Chain
import SketchPrep.Diagnosis.LastToken

/-!
Diagnostics for the user: a hint, and the place in the buffer that it belongs to.
-/

namespace SketchPrep

/-- `line` counts from 1, `column` counts characters from 0. -/
structure Issue where
  line : Nat
  column : Nat
  message : String
  deriving DecidableEq, Repr

namespace Issue

def shown (i : Issue) : String := s!"{i.line}:{i.column}: {i.message}"

/-- The first `lines` lines of a text, each with its line feed. -/
def takeLines : Nat → Text → Text
  | 0, _ => []
  | _, [] => []
  | n + 1, c :: cs => c :: takeLines (if c = '\n' then n else n + 1) cs

/-- The end of the last token before a line, as line and column. -/
def locatePrior (line : Nat) (source : Text) : Nat × Nat :=
  let before := takeLines (line - 1) source
  let behind := ((LastToken.start.scan before.reverse).position).getD 0
  let kept := before.reverse.drop behind
  (line - (before.reverse.take behind).count '\n', (kept.takeWhile (· ≠ '\n')).length)

/-- Where a hint is shown that arose at a line and column. Without the source it stays there. -/
def locate (toPrior : Bool) (line column : Nat) (source : Option Text) : Nat × Nat :=
  match source with
  | some text => if toPrior && line ≠ 0 then locatePrior line text else (line, column)
  | none => (line, column)

/-- Make a hint of a raw message and place it. -/
def diagnose (t : MessageTable) (message : String) (line column : Nat) (source : Option Text) :
    Issue :=
  let s := Hint.ofMessage t message
  let (line, column) := locate s.toPrior line column source
  ⟨line, column, s.message⟩

end Issue

end SketchPrep
