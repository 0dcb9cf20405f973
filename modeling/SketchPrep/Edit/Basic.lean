import SketchPrep.Token.Basic

/-!
Edits of a text. Their offsets count bytes of the text as it was before any edit.
-/

namespace SketchPrep

inductive Edit where
  | insert (offset : Nat) (text : Text)
  | delete (offset : Nat) (length : Nat)
  deriving DecidableEq, Repr

namespace Edit

def offset : Edit → Nat
  | .insert o _ => o
  | .delete o _ => o

/-- Where the edited range ends; an insertion edits an empty range. -/
def stop : Edit → Nat
  | .insert o _ => o
  | .delete o n => o + n

def isInsert : Edit → Bool
  | .insert _ _ => true
  | .delete _ _ => false

def inserted? : Edit → Option (Nat × Text)
  | .insert o t => some (o, t)
  | .delete _ _ => none

def deleted? : Edit → Option Span
  | .insert _ _ => none
  | .delete o n => some ⟨o, o + n⟩

end Edit

end SketchPrep
