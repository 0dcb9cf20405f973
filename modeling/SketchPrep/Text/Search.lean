import SketchPrep.Text.CharClass

/-!
Finding and replacing parts of texts. Occurrences are counted from the left and do not overlap.
-/

namespace SketchPrep.Text

/-- What follows `start`, if the text begins with it. -/
def after? : Text → Text → Option Text
  | [], cs => some cs
  | a :: as, c :: cs => if a = c then after? as cs else none
  | _ :: _, [] => none

theorem after?_eq_some {start cs rest : Text} :
    after? start cs = some rest ↔ cs = start ++ rest := by
  induction start generalizing cs with
  | nil => simp [after?, eq_comm]
  | cons a as ih =>
    cases cs with
    | nil => simp [after?]
    | cons c cs =>
      by_cases h : a = c
      · simp [after?, h, ih]
      · simp [after?, h, Ne.symm h]

/-- The text before the first occurrence of `part`, and the text behind it. -/
def splitFirst? (part : Text) : Text → Option (Text × Text)
  | [] => if part = [] then some ([], []) else none
  | c :: cs =>
    match after? part (c :: cs) with
    | some rest => some ([], rest)
    | none => (splitFirst? part cs).map fun (before, rest) => (c :: before, rest)

def hasPart (part cs : Text) : Bool := (splitFirst? part cs).isSome

/-- The text with the first occurrence of `part` replaced, if there is one. -/
def replaceFirst (part replacement cs : Text) : Text :=
  match splitFirst? part cs with
  | some (before, rest) => before ++ replacement ++ rest
  | none => cs

/-- How often `part` occurs. The empty text occurs at every boundary. -/
def occurrences (part : Text) : Text → Nat
  | [] => if part = [] then 1 else 0
  | c :: cs =>
    if part = [] then 1 + occurrences part cs
    else
      match _h : after? part (c :: cs) with
      | some rest => 1 + occurrences part rest
      | none => occurrences part cs
  termination_by cs => cs.length
  decreasing_by
    · simp
    · have hl := congrArg List.length (after?_eq_some.1 _h)
      have hp := List.length_pos_iff.2 ‹¬part = []›
      simp at hl ⊢
      omega
    · simp

/-- The text without any occurrence of `part`. -/
def removeAll (part : Text) : Text → Text
  | [] => []
  | c :: cs =>
    if part = [] then c :: cs
    else
      match _h : after? part (c :: cs) with
      | some rest => removeAll part rest
      | none => c :: removeAll part cs
  termination_by cs => cs.length
  decreasing_by
    · have hl := congrArg List.length (after?_eq_some.1 _h)
      have hp := List.length_pos_iff.2 ‹¬part = []›
      simp at hl ⊢
      omega
    · simp

/-- The text before the last occurrence of `part`, and the text behind it. -/
def splitLastPart? (part : Text) : Text → Option (Text × Text)
  | [] => if part = [] then some ([], []) else none
  | c :: cs =>
    match splitLastPart? part cs with
    | some (before, rest) => some (c :: before, rest)
    | none => (after? part (c :: cs)).map fun rest => ([], rest)

/-- The parts between the characters `c`; there is always one part more than characters. -/
def splitAll (c : Char) : Text → List Text
  | [] => [[]]
  | d :: cs =>
    if d = c then [] :: splitAll c cs
    else
      match splitAll c cs with
      | [] => [[d]]
      | part :: parts => (d :: part) :: parts

/-- The text before the last `c`, and the text behind it. -/
def splitLast? (c : Char) : Text → Option (Text × Text)
  | [] => none
  | d :: cs =>
    match splitLast? c cs with
    | some (before, rest) => some (d :: before, rest)
    | none => if d = c then some ([], cs) else none

def trimStart (cs : Text) : Text := cs.dropWhile CharClass.isSpace

def trimEnd (cs : Text) : Text := (trimStart cs.reverse).reverse

end SketchPrep.Text
