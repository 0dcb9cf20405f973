import SketchPrep.Json.Basic
import SketchPrep.Literal

/-!
Writing JSON texts over several lines, with two blanks for each level.
-/

namespace SketchPrep.Json

def ofNat (n : Nat) : Json := .number (toString n).toList

def ofOption {α : Type} (write : α → Json) : Option α → Json
  | none => .null
  | some a => write a

/-- Control characters are escaped, and nothing else that need not be. -/
def writeChar (c : Char) : Text :=
  if c = '"' then ['\\', '"']
  else if c = '\\' then ['\\', '\\']
  else if c = '\x08' then ['\\', 'b']
  else if c = '\x0c' then ['\\', 'f']
  else if c = '\n' then ['\\', 'n']
  else if c = '\r' then ['\\', 'r']
  else if c = '\t' then ['\\', 't']
  else if c.toNat < 0x20 then Literal.escapeUnit c.toNat
  else [c]

def writeString (s : String) : Text := '"' :: s.toList.flatMap writeChar ++ ['"']

def newline (level : Nat) : Text := '\n' :: List.replicate (2 * level) ' '

mutual

def write (level : Nat) : Json → Text
  | .null => "null".toList
  | .bool true => "true".toList
  | .bool false => "false".toList
  | .number lexeme => lexeme
  | .string s => writeString s
  | .array [] => ['[', ']']
  | .array (j :: js) => '[' :: writeElements (level + 1) (j :: js) ++ newline level ++ [']']
  | .object [] => ['{', '}']
  | .object (m :: ms) => '{' :: writeMembers (level + 1) (m :: ms) ++ newline level ++ ['}']
  | .undecodable => "null".toList

def writeElements (level : Nat) : List Json → Text
  | [] => []
  | [j] => newline level ++ write level j
  | j :: js => newline level ++ write level j ++ ',' :: writeElements level js

def writeMembers (level : Nat) : List (String × Json) → Text
  | [] => []
  | [(key, j)] => newline level ++ writeString key ++ ':' :: ' ' :: write level j
  | (key, j) :: ms =>
    newline level ++ writeString key ++ ':' :: ' ' :: write level j ++ ',' :: writeMembers level ms

end

def render (j : Json) : String := String.ofList (write 0 j)

end SketchPrep.Json
