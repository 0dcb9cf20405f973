import SketchPrep.Text.CharClass
import SketchPrep.Token.Basic

/-!
Reading tokens from a text. A lexeme is measured first: its kind, and how many characters beyond
its first one it takes. The reader then cuts the text there, so that gaps and lexemes put
together are the text again, whatever the measures say.
-/

namespace SketchPrep.Token.Lexer

/-- Where no token starts, with the characters that were tried. -/
structure Unrecognized where
  text : String
  start : Position
  deriving DecidableEq, Repr

def Unrecognized.message (u : Unrecognized) : String :=
  s!"token recognition error at: '{u.text}'"

def startsName (c : Char) : Bool := Text.CharClass.isAlphabetic c || c = '_' || c = '$'

def continuesName (c : Char) : Bool := Text.CharClass.isAlphanumeric c || c = '_' || c = '$'

def isBlank (c : Char) : Bool := c = ' ' || c = '\t' || c = '\r' || c = '\n' || c = '\x0c'

def isHexDigit (c : Char) : Bool :=
  c.isDigit || ('a' ≤ c && c ≤ 'f') || ('A' ≤ c && c ≤ 'F')

/-- How many leading characters are of a class. -/
def run (p : Char → Bool) (cs : Text) : Nat := (cs.takeWhile p).length

/-- The rest of a block comment, which the end of the text closes too. -/
def blockComment : Text → Nat
  | '*' :: '/' :: _ => 2
  | _ :: cs => blockComment cs + 1
  | [] => 0

/-- Blanks and comments before the next token. -/
def gap : Text → Nat
  | '/' :: '/' :: cs =>
    let n := run (· ≠ '\n') cs
    2 + n + gap (cs.drop n)
  | '/' :: '*' :: cs =>
    let n := blockComment cs
    2 + n + gap (cs.drop n)
  | c :: cs => if isBlank c then 1 + gap cs else 0
  | [] => 0
  termination_by cs => cs.length
  decreasing_by all_goals (simp; try omega)

/-! ### Numbers -/

def digits (cs : Text) : Nat := run (fun c => c.isDigit || c = '_') cs

def hexDigits (cs : Text) : Nat := run (fun c => isHexDigit c || c = '_') cs

/-- A point belongs to the number unless a name or another point follows it. -/
def fraction : Text → Nat
  | ['.'] => 1
  | '.' :: c :: cs =>
    if c.isDigit || !(startsName c || c = '.') then 1 + digits (c :: cs) else 0
  | _ => 0

def exponent : Text → Nat
  | e :: c :: cs =>
    if e = 'e' || e = 'E' then
      if c.isDigit then 1 + digits (c :: cs)
      else if (c = '+' || c = '-') && cs.head?.any Char.isDigit then 2 + digits cs
      else 0
    else 0
  | _ => 0

def isFloatSuffix (c : Char) : Bool := c = 'f' || c = 'F' || c = 'd' || c = 'D'

def isLongSuffix (c : Char) : Bool := c = 'l' || c = 'L'

def suffix (p : Char → Bool) (cs : Text) : Nat := if cs.head?.any p then 1 else 0

/-- A number without radix mark. Fraction, exponent or suffix makes it a float. -/
def decimal (cs : Text) : Kind × Nat :=
  let whole := digits cs
  let point := whole + fraction (cs.drop whole)
  let body := point + exponent (cs.drop point)
  let float := suffix isFloatSuffix (cs.drop body)
  if whole < body then (.floatLiteral, body + float)
  else if 0 < float then (.floatLiteral, body + float)
  else (.intLiteral, body + suffix isLongSuffix (cs.drop body))

/-- Fraction and binary exponent of a hexadecimal float; without the exponent it is none. -/
def hexFloatTail (cs : Text) : Option Nat :=
  let point := if cs.head? = some '.' then 1 + hexDigits (cs.drop 1) else 0
  match cs.drop point with
  | p :: cs =>
    if p = 'p' || p = 'P' then
      let sign := suffix (fun c => c = '+' || c = '-') cs
      if (cs.drop sign).head?.any Char.isDigit then
        some (point + 1 + sign + digits (cs.drop sign))
      else none
    else none
  | [] => none

/-- A number after its mark `0x` or `0b`. -/
def radix (isHex : Bool) (cs : Text) : Kind × Nat :=
  let body := hexDigits cs
  match if isHex then hexFloatTail (cs.drop body) else none with
  | some tail => (.floatLiteral, body + tail + suffix isFloatSuffix (cs.drop (body + tail)))
  | none => (.intLiteral, body + suffix isLongSuffix (cs.drop body))

def number : Text → Kind × Nat
  | '0' :: x :: cs =>
    if x = 'x' || x = 'X' then (radix true cs).map id (2 + ·)
    else if x = 'b' || x = 'B' then (radix false cs).map id (2 + ·)
    else decimal ('0' :: x :: cs)
  | cs => decimal cs

/-! ### Quoted literals -/

/-- A text block after its opening quotes, through the closing ones. -/
def textBlock : Text → Option Nat
  | '"' :: '"' :: '"' :: _ => some 3
  | '\\' :: _ :: cs => (textBlock cs).map (2 + ·)
  | _ :: cs => (textBlock cs).map (1 + ·)
  | [] => none

/-- A literal after its opening quote: whether it is closed on its line, and how far it was
read. A backslash takes the next character with it, even a line feed. -/
def quoted (quote : Char) : Text → Bool × Nat
  | '\\' :: _ :: cs => (quoted quote cs).map id (2 + ·)
  | c :: cs =>
    if c = '\n' || c = '\r' then (false, 0)
    else if c = quote then (true, 1)
    else (quoted quote cs).map id (1 + ·)
  | [] => (false, 0)

/-! ### Lexemes -/

/-- Signs of more than one character, longer ones first. -/
def longSigns : List Text :=
  ["<<=", "...", "->", "::", "++", "--", "&&", "||", "==", "!=", "<=", "+=", "-=", "*=", "/=",
    "%=", "&=", "|=", "^=", "<<"].map String.toList

def signs : Text := "()\x7b\x7d[];,.@=<>!~?:+-*/&|^%".toList

/-- The lexeme that begins with `c` and goes on in `cs`: its kind, and how many characters of
`cs` it takes. An error tells how many were read in vain. -/
def lexeme (c : Char) (cs : Text) : Except Nat (Kind × Nat) :=
  if startsName c then
    let n := run continuesName cs
    .ok (if keywords.contains (String.ofList (c :: cs.take n)) then .keyword else .identifier, n)
  else if c.isDigit || (c = '.' && cs.head?.any Char.isDigit) then
    .ok ((number (c :: cs)).map id (· - 1))
  else if c = '#' then
    let n := run isHexDigit cs
    if 8 ≤ n then .ok (.hexColor, 8) else if 6 ≤ n then .ok (.hexColor, 6) else .error 0
  else if c = '"' && cs.take 2 = ['"', '"'] then
    match textBlock (cs.drop 2) with
    | some n => .ok (.textBlock, 2 + n)
    | none => .error cs.length
  else if c = '"' || c = '\'' then
    match quoted c cs with
    | (true, n) => .ok (if c = '"' then .stringLiteral else .charLiteral, n)
    | (false, n) => .error n
  else
    match longSigns.find? (·.isPrefixOf (c :: cs)) with
    | some sign => .ok (.punctuation, sign.length - 1)
    | none => if signs.contains c then .ok (.punctuation, 0) else .error 0

/-- The tokens of `cs`, the first character of which stands at `p`. -/
def tokens (p : Position) (cs : Text) : Except Unrecognized Tokens :=
  let blank := cs.take (gap cs)
  let start := p.afterAll blank
  let broken := blank.contains '\n'
  match _h : cs.drop (gap cs) with
  | [] => .ok ⟨[], ⟨.endOfInput, "", start, start.offset, broken⟩, rfl⟩
  | c :: rest =>
    match lexeme c rest with
    | .error n => .error ⟨String.ofList (c :: rest.take n), start⟩
    | .ok (kind, n) =>
      let word := c :: rest.take n
      let next := start.afterAll word
      match tokens next (rest.drop n) with
      | .error e => .error e
      | .ok ts =>
        .ok {ts with body := ⟨kind, String.ofList word, start, next.offset, broken⟩ :: ts.body}
  termination_by cs.length
  decreasing_by
    have := congrArg List.length _h
    simp at this ⊢
    omega

end Lexer

/-- The tokens of a sketch, or the first place where none can be read. -/
def tokenize (source : Text) : Except Lexer.Unrecognized Tokens :=
  Lexer.tokens .start source

end SketchPrep.Token
