import SketchPrep.Text.Position

/-!
Lexical tokens of the sketch language: Java's, with `#RRGGBB` colours and `"""` text blocks.
-/

namespace SketchPrep

/-- The bytes from `lo` up to `hi`. Offsets are taken to be below `2 ^ 32`: the compiler's spans,
which these stand for, keep no more of them. -/
structure Span where
  lo : Nat
  hi : Nat
  deriving DecidableEq, Repr

namespace Span

/-- From the start of one span to the end of another. -/
def upTo (a b : Span) : Span := ⟨a.lo, b.hi⟩

end Span

inductive Token.Kind where
  | identifier
  | keyword
  | intLiteral
  | floatLiteral
  | hexColor
  | charLiteral
  | stringLiteral
  | textBlock
  | punctuation
  | endOfInput
  deriving DecidableEq, Repr

/-- `afterBreak` tells whether a line feed stands between the previous token and this one. -/
structure Token where
  kind : Token.Kind
  text : String
  start : Position
  stop : Nat
  afterBreak : Bool
  deriving DecidableEq, Repr

namespace Token

/-- Java's keywords, with the literals that are spelled like one. -/
def keywords : List String :=
  ["abstract", "assert", "boolean", "break", "byte", "case", "catch", "char", "class", "const",
    "continue", "default", "do", "double", "else", "enum", "extends", "final", "finally", "float",
    "for", "goto", "if", "implements", "import", "instanceof", "int", "interface", "long",
    "native", "new", "package", "private", "protected", "public", "return", "short", "static",
    "strictfp", "super", "switch", "synchronized", "this", "throw", "throws", "transient", "try",
    "void", "volatile", "while", "true", "false", "null"]

/-- The names of primitive types. `color` is an identifier that stands for `int` in a type. -/
def primitiveTypes : List String :=
  ["boolean", "byte", "char", "short", "int", "long", "float", "double", "color"]

def span (t : Token) : Span := ⟨t.start.offset, t.stop⟩

def isEnd (t : Token) : Bool := t.kind = .endOfInput

/-- A word or a sign that is spelled so; literals are neither. -/
def is (t : Token) (spelling : String) : Bool :=
  (t.kind = .identifier || t.kind = .keyword || t.kind = .punctuation) && t.text = spelling

def isLiteral (t : Token) : Bool :=
  match t.kind with
  | .intLiteral | .floatLiteral | .hexColor | .charLiteral | .stringLiteral | .textBlock => true
  | .keyword => t.text = "true" || t.text = "false" || t.text = "null"
  | .identifier | .punctuation | .endOfInput => false

def isPrimitiveType (t : Token) : Bool :=
  (t.kind = .keyword || t.kind = .identifier) && primitiveTypes.contains t.text

/-- The token as diagnostics show it. -/
def shown (t : Token) : String := if t.isEnd then "<EOF>" else t.text

/-- Signs that follow `before` without a gap, taken while they are spelled `sign`. -/
def adjacent (sign : String) : Nat → Token → List Token → List Token
  | limit + 1, before, t :: ts =>
    if t.is sign && before.stop = t.start.offset then t :: adjacent sign limit t ts else []
  | _, _, _ => []

/-- The operator that `first` begins, and how many tokens it takes. The lexer never joins a `>`
with what follows, so that nested type arguments close one by one; here up to three of them and
an `=` are joined if nothing stands between them. -/
def operator (first : Token) (rest : List Token) : String × Nat :=
  if first.is ">" then
    let angles := adjacent ">" 2 first rest
    let equals := adjacent "=" 1 (angles.getLastD first) (rest.drop angles.length)
    (String.join (first.text :: (angles ++ equals).map Token.text),
      1 + angles.length + equals.length)
  else (first.text, 1)

end Token

/-- The tokens of a text. The end of input closes every token list and stands apart from it. -/
structure Tokens where
  body : List Token
  final : Token
  final_isEnd : final.isEnd
  deriving DecidableEq, Repr

end SketchPrep
