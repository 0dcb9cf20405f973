import SketchPrep.Json.Reader
import SketchPrep.Text.Search

/-!
Templates of messages, looked up by key. Each hint is put into the template for syntax errors,
and the code it speaks about into the hint.
-/

namespace SketchPrep

/-- The first entry of a key counts. -/
structure MessageTable where
  entries : List (String × String)
  deriving DecidableEq, Repr

namespace MessageTable

def syntaxError : String := "editor.status.error.syntax"
def errorOn : String := "editor.status.error_on"
def badAssignment : String := "editor.status.bad.assignment"
def badIdentifier : String := "editor.status.bad.identifier"
def badParameter : String := "editor.status.bad.parameter"
def badGeneric : String := "editor.status.bad.generic"
def badImport : String := "editor.status.bad.import"
def badMixedMode : String := "editor.status.bad.mixed_mode"
def extraneous : String := "editor.status.extraneous"
def mismatched : String := "editor.status.mismatched"
def missingName : String := "editor.status.missing.name"
def missingType : String := "editor.status.missing.type"
def missingDefault : String := "editor.status.missing.default"
def missingRightCurly : String := "editor.status.missing.right_curly_bracket"
def missingLeftCurly : String := "editor.status.missing.left_curly_bracket"

def standard : MessageTable := ⟨[
  ("editor.status.error", "Error"),
  (syntaxError, "Syntax Error - %s"),
  (errorOn, "Error on \"%s\""),
  (badAssignment, "Error on variable assignment near %s?"),
  (badIdentifier, "Identifier cannot start with digits near %s?"),
  (badParameter, "Error on parameter or method declaration near %s?"),
  (badGeneric, "Possibly missing type in generic near '%s'?"),
  (badImport, "Imports must be at the top of the sketch"),
  (badMixedMode, "You may be mixing active and static modes."),
  (extraneous, "Unexpected extra code near %s?"),
  (mismatched, "Missing operator or semicolon near %s?"),
  (missingName, "Missing name near %s?"),
  (missingType, "Missing name or type near %s?"),
  (missingDefault, "Missing '%s'?"),
  (missingRightCurly, "Missing '\x7d'"),
  (missingLeftCurly, "Missing '\x7b'")]⟩

/-- The table with entries of its own before those of `t`; a later one counts more. -/
def override (t : MessageTable) (entries : List (String × String)) : MessageTable :=
  ⟨entries.reverse ++ t.entries⟩

/-- The standard table overridden by the entries of a JSON text, which has to be an object of
strings. -/
def parse? (text : Text) : Option MessageTable :=
  ((Json.parse? text).bind Json.stringMembers?).map standard.override

def get? (t : MessageTable) (key : String) : Option String := t.entries.lookup key

/-- Put `arg` into the first place that the template leaves open, if there is one. -/
def fill (template arg : String) : String :=
  String.ofList (Text.replaceFirst ['%', 's'] arg.toList template.toList)

/-- The hint of a key inside the template for syntax errors. A key without template is shown. -/
def hint (t : MessageTable) (key : String) : String :=
  fill ((t.get? syntaxError).getD "Error") ((t.get? key).getD key)

/-- The hint of a key with the code that it speaks about. -/
def render (t : MessageTable) (key arg : String) : String := fill (t.hint key) arg

end MessageTable

end SketchPrep
