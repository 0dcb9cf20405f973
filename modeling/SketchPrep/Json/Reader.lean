import SketchPrep.Json.Basic

/-!
Reading JSON texts as the standard defines them: no comments, no trailing commas, nothing after
the value but blanks.
-/

namespace SketchPrep.Json.Reader

def skipBlanks (cs : Text) : Text :=
  cs.dropWhile fun c => c = ' ' || c = '\t' || c = '\n' || c = '\r'

/-! ### Strings -/

/-- A part of a string: a character, or a UTF-16 code unit given by its number. -/
inductive Piece where
  | char (c : Char)
  | unit (n : Nat)
  deriving DecidableEq, Repr

def hexValue? (c : Char) : Option Nat :=
  if c.isDigit then some (c.toNat - '0'.toNat)
  else if 'a' ≤ c && c ≤ 'f' then some (c.toNat - 'a'.toNat + 10)
  else if 'A' ≤ c && c ≤ 'F' then some (c.toNat - 'A'.toNat + 10)
  else none

def unit? (digits : List Char) : Option Nat :=
  (digits.mapM hexValue?).map (List.foldl (fun n d => 16 * n + d) 0)

def escaped? : Char → Option Char
  | '"' => some '"'
  | '\\' => some '\\'
  | '/' => some '/'
  | 'b' => some '\x08'
  | 'f' => some '\x0c'
  | 'n' => some '\n'
  | 'r' => some '\r'
  | 't' => some '\t'
  | _ => none

/-- The parts of a string up to its closing quote. Control characters have to be escaped. -/
def pieces : Text → Option (List Piece × Text)
  | '"' :: cs => some ([], cs)
  | '\\' :: 'u' :: a :: b :: c :: d :: cs => do
    let n ← unit? [a, b, c, d]
    let (ps, rest) ← pieces cs
    return (.unit n :: ps, rest)
  | '\\' :: c :: cs => do
    let e ← escaped? c
    let (ps, rest) ← pieces cs
    return (.char e :: ps, rest)
  | c :: cs =>
    if c.toNat < 0x20 then none
    else (pieces cs).map fun (ps, rest) => (.char c :: ps, rest)
  | [] => none

def isHigh (n : Nat) : Bool := 0xD800 ≤ n && n < 0xDC00

def isLow (n : Nat) : Bool := 0xDC00 ≤ n && n < 0xE000

/-- The text of a string; surrogates have to come in pairs. -/
def decode : List Piece → Option Text
  | [] => some []
  | .char c :: ps => (decode ps).map (c :: ·)
  | .unit h :: .unit l :: ps =>
    if isHigh h then
      if isLow l then
        (decode ps).map (Char.ofNat (0x10000 + (h - 0xD800) * 0x400 + (l - 0xDC00)) :: ·)
      else none
    else if isLow h then none
    else (decode (.unit l :: ps)).map (Char.ofNat h :: ·)
  | .unit n :: ps =>
    if isHigh n || isLow n then none else (decode ps).map (Char.ofNat n :: ·)

/-- A string behind its opening quote, as text if it has one. -/
def string (cs : Text) : Option (Option String × Text) :=
  (pieces cs).map fun (ps, rest) => ((decode ps).map String.ofList, rest)

/-! ### Numbers -/

/-- At least one digit. -/
def digits (cs : Text) : Option (Text × Text) :=
  match cs.takeWhile Char.isDigit with
  | [] => none
  | ds => some (ds, cs.dropWhile Char.isDigit)

def whole (cs : Text) : Option (Text × Text) :=
  match cs with
  | '0' :: rest => some (['0'], rest)
  | _ => digits cs

def signed (cs : Text) : Option (Text × Text) :=
  match cs with
  | '-' :: rest => (whole rest).map fun (ds, rest) => ('-' :: ds, rest)
  | _ => whole cs

def fraction (cs : Text) : Option (Text × Text) :=
  match cs with
  | '.' :: rest => (digits rest).map fun (ds, rest) => ('.' :: ds, rest)
  | _ => some ([], cs)

def exponentSign (cs : Text) : Text × Text :=
  match cs with
  | '+' :: rest => (['+'], rest)
  | '-' :: rest => (['-'], rest)
  | _ => ([], cs)

def exponent (cs : Text) : Option (Text × Text) :=
  match cs with
  | e :: rest =>
    if e = 'e' || e = 'E' then
      let (sign, rest) := exponentSign rest
      (digits rest).map fun (ds, rest) => (e :: sign ++ ds, rest)
    else some ([], cs)
  | [] => some ([], [])

def number (cs : Text) : Option (Json × Text) := do
  let (a, cs) ← signed cs
  let (b, cs) ← fraction cs
  let (c, cs) ← exponent cs
  return (.number (a ++ b ++ c), cs)

/-! ### Values -/

/-- The object of members read; a key without text makes it undecodable. -/
def objectOf (members : List (Option String × Json)) : Json :=
  match members.mapM fun (key, j) => key.map (·, j) with
  | some ms => .object ms
  | none => .undecodable

mutual

/-- The first argument bounds the steps left. -/
def value : Nat → Text → Option (Json × Text)
  | 0, _ => none
  | n + 1, cs =>
    match skipBlanks cs with
    | 'n' :: 'u' :: 'l' :: 'l' :: rest => some (.null, rest)
    | 't' :: 'r' :: 'u' :: 'e' :: rest => some (.bool true, rest)
    | 'f' :: 'a' :: 'l' :: 's' :: 'e' :: rest => some (.bool false, rest)
    | '"' :: rest =>
      (string rest).map fun (s, rest) => ((s.map Json.string).getD .undecodable, rest)
    | '[' :: rest =>
      match skipBlanks rest with
      | ']' :: rest => some (.array [], rest)
      | _ => (elements n rest).map fun (js, rest) => (.array js, rest)
    | '{' :: rest =>
      match skipBlanks rest with
      | '}' :: rest => some (.object [], rest)
      | _ => (members n rest).map fun (ms, rest) => (objectOf ms, rest)
    | rest => number rest

/-- One element and those behind commas, through the closing bracket. -/
def elements : Nat → Text → Option (List Json × Text)
  | 0, _ => none
  | n + 1, cs => do
    let (j, rest) ← value n cs
    match skipBlanks rest with
    | ',' :: rest =>
      let (js, rest) ← elements n rest
      return (j :: js, rest)
    | ']' :: rest => return ([j], rest)
    | _ => none

/-- One member and those behind commas, through the closing brace. -/
def members : Nat → Text → Option (List (Option String × Json) × Text)
  | 0, _ => none
  | n + 1, cs => do
    let (key, rest) ← memberKey cs
    let (j, rest) ← value n rest
    match skipBlanks rest with
    | ',' :: rest =>
      let (ms, rest) ← members n rest
      return ((key, j) :: ms, rest)
    | '}' :: rest => return ([(key, j)], rest)
    | _ => none
where
  memberKey (cs : Text) : Option (Option String × Text) :=
    match skipBlanks cs with
    | '"' :: rest => do
      let (key, rest) ← string rest
      match skipBlanks rest with
      | ':' :: rest => return (key, rest)
      | _ => none
    | _ => none

end

end Reader

/-- The value of a JSON text. Two steps for each character suffice. -/
def parse? (text : Text) : Option Json :=
  match Reader.value (2 * text.length + 2) text with
  | some (j, rest) => if (Reader.skipBlanks rest).isEmpty then some j else none
  | none => none

end SketchPrep.Json
