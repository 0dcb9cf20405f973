import SketchPrep.Text.Search

/-!
The sketch language's literals and conversions, as the generated program writes them.
-/

namespace SketchPrep.Literal

/-- A floating-point literal without a suffix would be a `double`. -/
def needsSuffix (text : Text) : Bool :=
  !text.getLast?.any fun c => c = 'f' || c = 'F' || c = 'd' || c = 'D'

/-- `#RRGGBB` becomes opaque, `#AARRGGBB` keeps its alpha. -/
def hexColor (text : Text) : Text :=
  let mark := if text.size = 7 then "0xFF".toList else "0x".toList
  (text.flatMap Text.CharClass.upper).flatMap fun c => if c = '#' then mark else [c]

def threeQuotes : Text := ['"', '"', '"']

/-- What stands between the triple quotes; a text without them stands for itself. -/
def textBlockBody (text : Text) : Text :=
  match Text.after? threeQuotes text with
  | some rest =>
    match Text.after? threeQuotes rest.reverse with
    | some body => body.reverse
    | none => text
  | none => text

/-- Line ends and quotes are escaped; what is escaped already stays as it is. -/
def escapeQuoted : Text → Text
  | '\\' :: c :: cs => '\\' :: c :: escapeQuoted cs
  | '\n' :: cs => '\\' :: 'n' :: escapeQuoted cs
  | '\r' :: cs => '\\' :: 'r' :: escapeQuoted cs
  | '"' :: cs => '\\' :: '"' :: escapeQuoted cs
  | c :: cs => c :: escapeQuoted cs
  | [] => []

/-- A text block as a string literal on one line. -/
def textBlock (text : Text) : Text := '"' :: escapeQuoted (textBlockBody text) ++ ['"']

/-- The method that a conversion such as `int(x)` calls. -/
def conversion? : String → Option String
  | "int" => some "PApplet.parseInt"
  | "float" => some "PApplet.parseFloat"
  | "boolean" => some "PApplet.parseBoolean"
  | "byte" => some "PApplet.parseByte"
  | "char" => some "PApplet.parseChar"
  | _ => none

/-! ### Unicode escapes -/

def hexDigit (n : Nat) : Char := (Nat.toDigits 16 n).headD '0'

/-- A code unit as a backslash, a `u` and four digits. -/
def escapeUnit (unit : Nat) : Text :=
  ['\\', 'u', hexDigit (unit / 4096 % 16), hexDigit (unit / 256 % 16), hexDigit (unit / 16 % 16),
    hexDigit (unit % 16)]

/-- The UTF-16 code units of a character. -/
def units (c : Char) : List Nat :=
  if c.toNat < 0x10000 then [c.toNat]
  else
    let n := c.toNat - 0x10000
    [0xD800 + n / 0x400, 0xDC00 + n % 0x400]

/-- A character in ASCII. A no-break space becomes a blank. -/
def escapeChar (c : Char) : Text :=
  if Text.CharClass.isAscii c then [c]
  else if c = '\u00a0' then [' ']
  else (units c).flatMap escapeUnit

def escapeUnicode (text : Text) : Text := text.flatMap escapeChar

end SketchPrep.Literal
