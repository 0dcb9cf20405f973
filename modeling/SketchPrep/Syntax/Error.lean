import SketchPrep.Token.Lexer

/-!
The first syntax error of a sketch: what went wrong there, and its wording. The wording follows
generated grammars, because `Diagnosis` recognises it.
-/

namespace SketchPrep

/-- What a reader would have accepted. -/
inductive Expectation where
  | identifier
  | word (spelling : String)
  deriving DecidableEq, Repr

namespace Expectation

def accepts : Expectation → Token → Bool
  | .identifier, t => t.kind = .identifier
  | .word w, t => t.is w

def shown : Expectation → String
  | .identifier => "Identifier"
  | .word w => "'" ++ w ++ "'"

/-- One expectation stands alone, several in braces. -/
def shownAll : List Expectation → String
  | [e] => e.shown
  | es => "\x7b" ++ ", ".intercalate (es.map shown) ++ "\x7d"

end Expectation

/-- `unrecognized`: no token starts here. `extraneous`: without the found token the input would go
on as expected. `missing`: with the expected token it would go on as found. `noViable`: nothing that
can stand here starts like the bytes `read`. -/
inductive SyntaxError.Cause where
  | unrecognized (text : String)
  | extraneous (found : String) (expected : List Expectation)
  | missing (expected : Expectation) (found : String)
  | mismatched (found : String) (expected : List Expectation)
  | noViable (read : Span)
  deriving DecidableEq, Repr

structure SyntaxError where
  cause : SyntaxError.Cause
  start : Position
  deriving DecidableEq, Repr

namespace SyntaxError

def message (source : Text) (e : SyntaxError) : String :=
  match e.cause with
  | .unrecognized text => (Token.Lexer.Unrecognized.mk text e.start).message
  | .extraneous found expected =>
    "extraneous input '" ++ found ++ "' expecting " ++ Expectation.shownAll expected
  | .missing expected found => "missing " ++ expected.shown ++ " at '" ++ found ++ "'"
  | .mismatched found expected =>
    "mismatched input '" ++ found ++ "' expecting " ++ Expectation.shownAll expected
  | .noViable read =>
    "no viable alternative at input '" ++ String.ofList (source.slice read.lo read.hi) ++ "'"

def ofUnrecognized (u : Token.Lexer.Unrecognized) : SyntaxError :=
  ⟨.unrecognized u.text, u.start⟩

end SyntaxError

end SketchPrep
