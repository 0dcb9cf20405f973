import SketchPrep.Text.Basic

/-!
Finding the last token of a text by reading it backwards. What is not blank may be a token until
the start of its line is reached; only then it is known not to stand in a comment.
-/

namespace SketchPrep

/-- What the characters read so far can be. `candidateOrLineComment`: a slash stands before the
candidate, and another one makes it a comment to the end of its line. `slash`: the first character
that is not blank is a slash, a token or the last character of a comment. `blockCommentStar`: a
slash before this star leaves the block comment. -/
inductive LastToken.State where
  | unknown
  | candidate
  | candidateOrLineComment
  | slash
  | token
  | blockComment
  | blockCommentStar
  deriving DecidableEq, Repr

/-- `position` counts the characters read before the token. -/
structure LastToken where
  state : LastToken.State
  position : Option Nat
  read : Nat
  deriving DecidableEq, Repr

namespace LastToken

def start : LastToken := ⟨.unknown, none, 0⟩

def isFound (p : LastToken) : Bool := p.state = .token

def isBlank (c : Char) : Bool := c = ' ' || c = '\t' || c = '\r' || c = '\n' || c = '\x0c'

/-- State and position after a character, `read` characters having been read before it. -/
def next (read : Nat) (position : Option Nat) (c : Char) : State → State × Option Nat
  | .unknown =>
    if isBlank c then (.unknown, position)
    else (if c = '/' then .slash else .candidate, some read)
  | .candidate =>
    if c = '\n' then (.token, position)
    else if c = '/' then (.candidateOrLineComment, position)
    else (.candidate, position)
  | .candidateOrLineComment =>
    if c = '\n' then (.token, position)
    else if c = '/' then (.unknown, none)
    else (.candidate, position)
  | .slash =>
    if c = '\n' then (.token, position)
    else if c = '/' then (.unknown, none)
    else if c = '*' then (.blockComment, some read)
    else (.candidate, position)
  | .token => (.token, position)
  | .blockComment => (if c = '*' then .blockCommentStar else .blockComment, position)
  | .blockCommentStar =>
    (if c = '/' then .unknown else if c = '*' then .blockCommentStar else .blockComment, position)

def step (p : LastToken) (c : Char) : LastToken :=
  let (state, position) := next p.read p.position c p.state
  ⟨state, position, p.read + 1⟩

/-- Read characters, last one first, until the token is found. -/
def scan (p : LastToken) : List Char → LastToken
  | [] => p
  | c :: cs => if p.isFound then p else scan (p.step c) cs

end LastToken

end SketchPrep
