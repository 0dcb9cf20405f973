import SketchPrep.Text.Basic

/-!
JSON values. A value that is well formed but names no text is kept apart: only a reader that asks
for it has to refuse it.
-/

namespace SketchPrep

/-- `undecodable` is a string with a lone surrogate, or an object with such a key. A number is
kept as it was written, and the members of an object in their order. -/
inductive Json where
  | null
  | bool (value : Bool)
  | number (lexeme : Text)
  | string (value : String)
  | array (elements : List Json)
  | object (members : List (String × Json))
  | undecodable

namespace Json

def bool? : Json → Option Bool
  | .bool b => some b
  | _ => none

def string? : Json → Option String
  | .string s => some s
  | _ => none

/-- The value of a text of decimal digits. -/
def decimal (digits : Text) : Nat :=
  digits.foldl (fun n c => 10 * n + (c.toNat - '0'.toNat)) 0

/-- A number without sign, fraction and exponent that fits 64 bits. -/
def natural? : Json → Option Nat
  | .number lexeme =>
    if lexeme.all Char.isDigit && decimal lexeme < UInt64.size then some (decimal lexeme) else none
  | _ => none

def strings? : Json → Option (List String)
  | .array elements => elements.mapM string?
  | _ => none

/-- `null`, or a value. -/
def nullable? {α : Type} (read : Json → Option α) : Json → Option (Option α)
  | .null => some none
  | j => (read j).map some

/-- The value of `key`, if there is one; undefined if there are several. -/
def member? (members : List (String × Json)) (key : String) : Option (Option Json) :=
  match members.filter (·.1 = key) with
  | [] => some none
  | [(_, j)] => some (some j)
  | _ => none

/-- The values of a record's fields: of an object by their names, of an array by their places.
Members of other names do not matter, but an array must not have more elements than fields. -/
def fields? (names : List String) : Json → Option (List (Option Json))
  | .object members => names.mapM (member? members)
  | .array elements =>
    if elements.length ≤ names.length then
      some ((List.range names.length).map fun i => elements[i]?)
    else none
  | _ => none

/-- The value of a field, by default that of `absent`. -/
def field? {α : Type} (fields : List (Option Json)) (index : Nat) (read : Json → Option α)
    (absent : α) : Option α :=
  match fields[index]? with
  | some (some j) => read j
  | _ => some absent

/-- An object all of whose values are strings. -/
def stringMembers? : Json → Option (List (String × String))
  | .object members => members.mapM fun (key, j) => j.string?.map (key, ·)
  | _ => none

end Json

end SketchPrep
