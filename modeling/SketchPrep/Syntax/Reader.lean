import SketchPrep.Syntax.Error
import SketchPrep.Syntax.Tree

/-!
Readers take tokens off a stream and stop at the first syntax error. Repetitions go on as long as
the stream gets shorter, which every reader of an item sees to.
-/

namespace SketchPrep.Syntax

/-- Where reading stands: the tokens ahead and how many they are, the end of the last token taken,
and the start of the declaration or statement being read. -/
structure Stream where
  ahead : List Token
  left : Nat
  final : Token
  lastStop : Nat
  decisionStart : Nat
  left_eq : left = ahead.length := by simp
  final_isEnd : final.isEnd
  deriving Repr

namespace Stream

def ofTokens (ts : Tokens) : Stream where
  ahead := ts.body
  left := ts.body.length
  final := ts.final
  lastStop := 0
  decisionStart := 0
  final_isEnd := ts.final_isEnd

/-- The token `n` places ahead; the end of input stands at every place beyond the last token. -/
def nth (s : Stream) (n : Nat) : Token := s.ahead.getD n s.final

def current (s : Stream) : Token := s.nth 0

def atEnd (s : Stream) : Bool := s.ahead.isEmpty

def isAt (s : Stream) (spelling : String) : Bool := s.current.is spelling

def isAtKind (s : Stream) (kind : Token.Kind) : Bool := s.current.kind = kind

/-- The next token comes after the current one and is spelled so. -/
def isNext (s : Stream) (spelling : String) : Bool := (s.nth 1).is spelling

def lo (s : Stream) : Nat := s.current.start.offset

/-- Past the current token; the end of input is never passed. -/
def advance (s : Stream) : Stream :=
  match _h : s.ahead with
  | [] => s
  | t :: ts =>
    { s with
      ahead := ts
      left := s.left - 1
      lastStop := t.stop
      left_eq := by simp [s.left_eq, _h] }

theorem advance_ahead (s : Stream) : s.advance.ahead = s.ahead.tail := by
  unfold advance
  split <;> simp_all

/-- The span from `start` through the last token taken. -/
def spanFrom (s : Stream) (start : Nat) : Span := ⟨start, s.lastStop⟩

/-- Whether the input would go on as found if the expected token stood here. -/
def completes (s : Stream) : Expectation → Bool
  | .word ";" =>
    s.atEnd || s.isAt "\x7d" || s.current.afterBreak || s.current.isLiteral ||
      s.isAtKind .identifier || s.isAtKind .keyword
  | .word ")" => s.isAt "\x7b" || s.isAt ";"
  | .word "]" => s.isAt ";"
  | .word "\x7d" => s.atEnd
  | .word _ => false
  | .identifier => ["\x7b", "(", ")", "=", ";", ","].any s.isAt

/-- The current token is none of the expected ones. -/
def unexpected (s : Stream) (expected : List Expectation) : SyntaxError :=
  let found := s.current.shown
  let cause :=
    if !s.atEnd && expected.any (·.accepts (s.nth 1)) then .extraneous found expected
    else
      match expected with
      | [e] => if s.completes e then .missing e found else .mismatched found expected
      | _ => .mismatched found expected
  ⟨cause, s.current.start⟩

/-- Nothing can be made of the input from the start of the declaration or statement on. -/
def noViable (s : Stream) : SyntaxError :=
  ⟨.noViable ⟨s.decisionStart, max s.current.stop s.decisionStart⟩, s.current.start⟩

end Stream

abbrev Reader := StateT Stream (Except SyntaxError)

namespace Reader

/-- An error at the current token, as one of its descriptions. -/
def failWith {α : Type} (describe : Stream → SyntaxError) : Reader α := fun s =>
  .error (describe s)

/-- Take the current token. -/
def take : Reader Token := fun s => .ok (s.current, s.advance)

/-- Take the current token if it is spelled so. -/
def eat (spelling : String) : Reader Bool := fun s =>
  if s.isAt spelling then .ok (true, s.advance) else .ok (false, s)

def expect (spelling : String) : Reader Token := fun s =>
  if s.isAt spelling then .ok (s.current, s.advance) else .error (s.unexpected [.word spelling])

/-- The current token as an identifier, whatever it is. -/
def takeIdent : Reader Ident := fun s =>
  .ok (⟨s.current.text, s.current.span⟩, s.advance)

def identifier : Reader Ident := fun s =>
  if s.isAtKind .identifier then takeIdent s else .error (s.unexpected [.identifier])

/-- Whether reading on would succeed with `true`. Nothing is taken. -/
def foresee (reader : Reader Bool) : Reader Bool := fun s =>
  match reader s with
  | .ok (found, _) => .ok (found, s)
  | .error _ => .ok (false, s)

/-- The declaration or statement being read starts at the current token. -/
def beginDecision : Reader Nat := fun s => .ok (s.lo, { s with decisionStart := s.lo })

variable {α β : Type}

/-- Items as long as `more` holds. -/
def manyWhile (more : Stream → Bool) (item : Reader α) : Reader (List α) := fun s =>
  if more s then
    match item s with
    | .error e => .error e
    | .ok (a, next) =>
      if next.left < s.left then
        match manyWhile more item next with
        | .error e => .error e
        | .ok (as, last) => .ok (a :: as, last)
      else .ok ([a], next)
  else .ok ([], s)
  termination_by s => s.left

/-- One item, and another after each separator. -/
def sepBy (separator : String) (item : Reader α) : Reader (List α) := do
  let first ← item
  let others ← manyWhile (·.isAt separator) do
    let _ ← take
    item
  return first :: others

/-- Items as long as `more` holds, a separator between two of them and perhaps after the last. -/
def sepEndBy (separator : String) (more : Stream → Bool) (item : Reader α) :
    Reader (List α) := fun s =>
  if more s then
    match item s with
    | .error e => .error e
    | .ok (a, next) =>
      if next.isAt separator && next.advance.left < s.left then
        match sepEndBy separator more item next.advance with
        | .error e => .error e
        | .ok (as, last) => .ok (a :: as, last)
      else .ok ([a], next)
  else .ok ([], s)
  termination_by s => s.left
  decreasing_by simp_all

/-- Let `step` extend what has been read until it has nothing to add. -/
def extend (step : α → Reader (Option α)) (a : α) : Reader α := fun s =>
  match step a s with
  | .error e => .error e
  | .ok (none, next) => .ok (a, next)
  | .ok (some b, next) =>
    if next.left < s.left then extend step b next else .ok (b, next)
  termination_by s => s.left

/-- Nothing, or items in parentheses that have just been opened, with commas between them. -/
def closeList (item : Reader α) : Reader (List α) := do
  let items ← if (← get).isAt ")" then pure [] else sepBy "," item
  let _ ← expect ")"
  return items

/-- Items in parentheses, with commas between them. -/
def parenList (item : Reader α) : Reader (List α) := do
  let _ ← expect "("
  closeList item

end Reader

end SketchPrep.Syntax
