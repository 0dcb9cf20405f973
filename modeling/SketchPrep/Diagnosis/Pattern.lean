import SketchPrep.Text.CharClass

/-!
Patterns of characters, searched for in a text by partial derivatives: the states of a search are
the patterns that the text read so far leaves to be matched.
-/

namespace SketchPrep

inductive CharSet.Part where
  | range (first last : Char)
  | space
  | digit
  deriving DecidableEq, Repr

/-- Characters that belong to some part, or to none. -/
structure CharSet where
  negated : Bool
  parts : List CharSet.Part
  deriving DecidableEq, Repr

namespace CharSet

def Part.has (c : Char) : Part → Bool
  | .range first last => first ≤ c && c ≤ last
  | .space => Text.CharClass.isSpace c
  | .digit => Text.CharClass.isDecimalDigit c

def has (s : CharSet) (c : Char) : Bool := s.parts.any (Part.has c) != s.negated

end CharSet

inductive Pattern where
  | empty
  | set (s : CharSet)
  | append (p q : Pattern)
  | either (p q : Pattern)
  | many (p : Pattern)
  deriving DecidableEq, Repr

namespace Pattern

/-! ### Building patterns -/

def range (first last : Char) : CharSet.Part := .range first last

def char (c : Char) : CharSet.Part := .range c c

def oneOf (parts : List CharSet.Part) : Pattern := .set ⟨false, parts⟩

def noneOf (parts : List CharSet.Part) : Pattern := .set ⟨true, parts⟩

def one (c : Char) : Pattern := oneOf [char c]

def inOrder : List Pattern → Pattern
  | [] => .empty
  | [p] => p
  | p :: ps => .append p (inOrder ps)

def spelled (s : String) : Pattern := inOrder (s.toList.map one)

def optional (p : Pattern) : Pattern := .either p .empty

def atLeastOne (p : Pattern) : Pattern := .append p (.many p)

/-! ### Searching -/

/-- Whether the pattern matches the empty text. -/
def nullable : Pattern → Bool
  | .empty | .many _ => true
  | .set _ => false
  | .append p q => nullable p && nullable q
  | .either p q => nullable p || nullable q

/-- What is left to be matched behind `p`. -/
def andThen (p q : Pattern) : Pattern :=
  match p with
  | .empty => q
  | p => .append p q

/-- The patterns of what may follow `c` in a text that matches. -/
def derive (c : Char) : Pattern → List Pattern
  | .empty => []
  | .set s => if s.has c then [.empty] else []
  | .append p q =>
    (derive c p).map (·.andThen q) ++ if nullable p then derive c q else []
  | .either p q => derive c p ++ derive c q
  | .many p => (derive c p).map (·.andThen (.many p))

/-- Whether a part of the text matches, given the states reached so far. A part that has to reach
the end counts only there. -/
def searchFrom (p : Pattern) (toEnd : Bool) (states : List Pattern) : Text → Bool
  | [] => states.any nullable
  | c :: cs =>
    (!toEnd && states.any nullable) ||
      searchFrom p toEnd (p :: states.flatMap (derive c)).eraseDups cs

/-- Whether some part of the text matches. -/
def occursIn (p : Pattern) (cs : Text) : Bool := searchFrom p false [p] cs

/-- Whether some part that ends the text matches. -/
def endsText (p : Pattern) (cs : Text) : Bool := searchFrom p true [p] cs

end Pattern

end SketchPrep
