import SketchPrep.Diagnosis.Messages
import SketchPrep.Diagnosis.Pattern

/-!
Rules that make a hint of a raw message. A rule recognises the message, or leaves it to the next.
-/

namespace SketchPrep

/-- A hint. It may belong to the token before the one that the message blames. -/
structure Hint where
  message : String
  toPrior : Bool
  deriving DecidableEq, Repr

abbrev Rule := MessageTable → Text → Option Hint

namespace Rule

def noViable : Text := "viable alternative".toList

/-- The last line of the code that a `no viable alternative` message quotes; any other message as
it is. A backslash with an `n` behind it also ends a line. -/
def quotedCode (message : Text) : Text :=
  if Text.hasPart noViable message then
    let content := Text.removeAll "no viable alternative at input '".toList message
    let shown := content.flatMap fun c => if c = '\n' then ['\\', 'n'] else [c]
    let last :=
      match Text.splitLastPart? ['\\', 'n'] shown with
      | some (_, rest) => rest
      | none => shown
    if last.getLast? = some '\'' then last.dropLast else last
  else message

def plain (message : String) : Option Hint := some ⟨message, false⟩

def missing (t : MessageTable) (piece : String) : Option Hint :=
  plain (t.render MessageTable.missingDefault piece)

/-- Whether the message has `part` in it, in whatever case. No character beyond ASCII has a
lower-case form that could be a part of the texts looked for, so ASCII case is all that counts. -/
def mentions (part : String) (message : Text) : Bool :=
  Text.hasPart part.toList (message.map Char.toLower)

/-- A string or character literal that is not closed. -/
def unterminatedLiteral : Rule := fun t message =>
  match Text.after? "token recognition error at: '".toList message with
  | some (c :: _) => if c = '"' || c = '\'' then missing t (String.ofList [c]) else none
  | _ => none

/-- A declaration is not followed by its body. -/
def missingBody : Rule := fun t message =>
  if "expecting \x7b'throws', '\x7b'\x7d".toList.isSuffixOf message ||
      "expecting \x7b'throws', '\x7b', '[', ';'\x7d".toList.isSuffixOf message then
    plain (t.hint MessageTable.missingLeftCurly)
  else none

def missingBrace : Rule := fun t message =>
  if message = "missing ';' at '\x7b'".toList then plain (t.hint MessageTable.missingRightCurly)
  else none

def missingIdentifier : Rule := fun t message =>
  if mentions "missing identifier at" message then
    let rest := Text.removeAll "missing Identifier at".toList message
    plain (t.render MessageTable.missingName (String.ofList rest))
  else none

/-- The piece that a line calls missing: as much as can stand between the last quote behind
`missing` and a quote before `at`. -/
def missingPieceOfLine? : Text → Option Text
  | [] => none
  | c :: cs =>
    match missingPieceOfLine? cs with
    | some piece => some piece
    | none =>
      (Text.after? "missing '".toList (c :: cs)).bind fun rest =>
        (Text.splitLastPart? "' at ".toList rest).map Prod.fst

def missingPiece? (message : Text) : Option Text :=
  (Text.splitAll '\n' message).findSome? missingPieceOfLine?

/-- A semicolon is missing where the token before ends. -/
def missingToken : Rule := fun t message =>
  if mentions "missing" message then
    let piece := ((missingPiece? message).map String.ofList).getD "character"
    some ⟨t.render MessageTable.missingDefault piece, piece = ";"⟩
  else none

def extraneousToken : Rule := fun t message =>
  if mentions "extraneous" message then
    plain (t.render MessageTable.extraneous (String.ofList (quotedCode message)))
  else none

/-- The input that the message calls mismatched, on the first line where it is quoted. -/
def mismatchedPiece? : Text → Option Text
  | [] => none
  | c :: cs =>
    let piece :=
      (Text.after? "mismatched input '".toList (c :: cs)).bind fun rest =>
        Text.splitLastPart? "' expecting ".toList (rest.takeWhile (· ≠ '\n'))
    match piece with
    | some (found, _) => some found
    | none => mismatchedPiece? cs

def mismatchedToken : Rule := fun t message =>
  if mentions "mismatched input" message then
    let found := (mismatchedPiece? message).getD message
    plain (t.render MessageTable.mismatched (String.ofList found))
  else none

/-- The message has a part of a certain shape. -/
def shaped (occurs : Text → Bool) (key : String) : Rule := fun t message =>
  if occurs message then plain (t.render key (String.ofList (quotedCode message))) else none

/-- A token has to occur an even number of times, escaped ones apart. -/
def unpaired (token escaped : String) : Rule := fun t message =>
  let content := Text.removeAll escaped.toList (quotedCode message)
  if Text.occurrences token.toList content % 2 = 1 then missing t token else none

/-- Two tokens have to occur equally often; the rarer one is missing. -/
def unbalanced (opener closer : String) : Rule := fun t message =>
  let content := quotedCode message
  let opened := Text.occurrences opener.toList content
  let closed := Text.occurrences closer.toList content
  if opened = closed then none else missing t (if opened < closed then opener else closer)

/-- Answers every message. -/
def fallback : Rule := fun t message =>
  if Text.hasPart noViable message then
    plain (t.render MessageTable.errorOn (String.ofList (quotedCode message)))
  else plain (String.ofList message)

end Rule

end SketchPrep
