import SketchPrep.Text.Basic

/-!
Where a character stands: its byte offset, its line and its column. A line feed ends a line and
nothing else does. Main statement: `Position.afterAll_start`, positions kept up character by
character agree with `lineColumn`, which counts from the text alone.
-/

namespace SketchPrep

/-- `line` counts from 1, `column` counts characters from 0. -/
structure Position where
  offset : Nat
  line : Nat
  column : Nat
  deriving DecidableEq, Repr

namespace Text

/-- Line and column of the character that follows `before`. -/
def lineColumn (before : Text) : Nat × Nat :=
  (before.count '\n' + 1, (before.reverse.takeWhile (· ≠ '\n')).length)

end Text

namespace Position

def start : Position := ⟨0, 1, 0⟩

def after (p : Position) (c : Char) : Position :=
  if c = '\n' then ⟨p.offset + c.utf8Size, p.line + 1, 0⟩
  else ⟨p.offset + c.utf8Size, p.line, p.column + 1⟩

def afterAll (p : Position) (cs : Text) : Position := cs.foldl after p

@[simp] theorem afterAll_append (p : Position) (as bs : Text) :
    p.afterAll (as ++ bs) = (p.afterAll as).afterAll bs := List.foldl_append

theorem afterAll_offset (p : Position) (cs : Text) :
    (p.afterAll cs).offset = p.offset + cs.size := by
  induction cs generalizing p with
  | nil => rfl
  | cons c cs ih =>
    have hc : (p.after c).offset = p.offset + c.utf8Size := by unfold after; split <;> rfl
    rw [show p.afterAll (c :: cs) = (p.after c).afterAll cs from rfl, ih, hc, Text.size_cons]
    omega

theorem afterAll_start (cs : Text) :
    start.afterAll cs = ⟨Text.size cs, (Text.lineColumn cs).1, (Text.lineColumn cs).2⟩ := by
  suffices ∀ rs : Text, start.afterAll rs.reverse =
      ⟨Text.size rs.reverse, (Text.lineColumn rs.reverse).1, (Text.lineColumn rs.reverse).2⟩ by
    simpa using this cs.reverse
  intro rs
  induction rs with
  | nil => rfl
  | cons c rs ih =>
    rw [List.reverse_cons, afterAll_append, ih]
    by_cases hc : c = '\n' <;> simp [afterAll, after, Text.lineColumn, hc]

end Position

end SketchPrep
