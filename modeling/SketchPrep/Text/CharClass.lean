import SketchPrep.Text.CharTable
import SketchPrep.Text.Basic

/-!
Classes and case of characters by the Unicode properties, of which the standard library's
predicates know the ASCII part.
-/

namespace SketchPrep.Text.CharClass

def within (table : Array (Nat × Nat)) (c : Char) : Bool :=
  table.any fun (first, last) => first ≤ c.toNat && c.toNat ≤ last

def isAscii (c : Char) : Bool := c.toNat < 128

/-- The property Alphabetic. -/
def isAlphabetic (c : Char) : Bool :=
  c.isAlpha || (!isAscii c && within CharTable.alphabetic c)

/-- Alphabetic, or of the category N. -/
def isAlphanumeric (c : Char) : Bool :=
  isAlphabetic c || c.isDigit || (!isAscii c && within CharTable.numeric c)

/-- The category Nd, as patterns know it. -/
def isDecimalDigit (c : Char) : Bool :=
  c.isDigit || (!isAscii c && within CharTable.decimalDigit c)

/-- The property White_Space. -/
def isSpace (c : Char) : Bool :=
  within #[(0x9, 0xD), (0x20, 0x20), (0x85, 0x85), (0xA0, 0xA0), (0x1680, 0x1680),
    (0x2000, 0x200A), (0x2028, 0x2029), (0x202F, 0x202F), (0x205F, 0x205F), (0x3000, 0x3000)] c

theorem isAlphanumeric_of_isAlphabetic {c : Char} (h : isAlphabetic c) : isAlphanumeric c := by
  simp [isAlphanumeric, h]

/-- The full upper-case form, of one character or more. -/
def upper (c : Char) : Text :=
  if isAscii c then [c.toUpper]
  else
    match CharTable.upperExpansions.find? (·.1 = c.toNat) with
    | some (_, points) => points.map Char.ofNat
    | none =>
      match CharTable.upperRuns.find? fun (first, last, step, _) =>
          first ≤ c.toNat && c.toNat ≤ last && (c.toNat - first) % step = 0 with
      | some (_, _, _, distance) => [Char.ofNat (c.toNat + distance).toNat]
      | none => [c]

end SketchPrep.Text.CharClass
