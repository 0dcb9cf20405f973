import SketchPrep.Diagnosis.Issue
import SketchPrep.Frame
import SketchPrep.Sketch.ProgramMap
import SketchPrep.Syntax.Sketch
import SketchPrep.Finding

/-!
From the tabs of a sketch to the edits that make a Java program of them, or to the issues that
stand in the way.
-/

namespace SketchPrep

/-- `headerLines` is how many lines stand before the first line of the sketch. -/
structure PreprocessedSketch where
  mode : SketchMode
  className : String
  headerLines : Nat
  imports : List ImportStatement
  edits : List Edit
  width : Option String
  height : Option String
  renderer : Option String
  hasMain : Bool
  program : Text
  deriving DecidableEq, Repr

namespace PreprocessedSketch

/-- Callers count on the width here too. -/
def sketchHeight (s : PreprocessedSketch) : Option String := s.width

/-- Where the tabs' text went in the program. -/
def programMap? (s : PreprocessedSketch) (tabs : List Tab) : Option ProgramMap :=
  ProgramMap.ofEdits? tabs s.edits

end PreprocessedSketch

namespace Preprocess

inductive Outcome where
  | success (sketch : PreprocessedSketch)
  | failure (issues : List Issue)

/-- Why a sketch cannot be preprocessed at all: a configured import is invalid, an indentation is
too long for a string, two edits clash, or a character is cut. -/
inductive Fault where
  | invalidImport (name : ImportStatement.Invalid)
  | noRoom
  | clash (fault : Draft.Fault)
  | brokenArgument
  | brokenText
  deriving DecidableEq, Repr

namespace Fault

def message : Fault → String
  | .invalidImport e => e.message
  | .noRoom => "capacity overflow"
  | .clash fault => fault.message
  | .brokenArgument => "the copy of an argument cuts a character"
  | .brokenText => "an edit cuts a character"

/-- Only an invalid import is expected; the other faults stop the whole program. -/
def isPanic : Fault → Bool
  | .invalidImport _ => false
  | _ => true

end Fault

def importTiers (o : Options) (discovered : List ImportStatement) :
    Except ImportStatement.Invalid ImportTiers := do
  let core ← ImportTiers.parseAll o.coreImports
  let codeFolder ← ImportTiers.parseAll (o.codeFolderPackages.map ImportTiers.codeFolderName)
  let standard ← ImportTiers.parseAll o.defaultImports
  return ⟨core, codeFolder, discovered, standard⟩

/-- The name of the class that holds the sketch. -/
def className (o : Options) (mode : SketchMode) (items : List Item) : String :=
  let ownClass? : Item → Option String
    | .type t => if t.isSketchClass then some t.name.name else none
    | _ => none
  match mode with
  | .java => (items.findSome? ownClass?).getD o.sketchName
  | .static | .active => o.sketchName

/-- Replace each character beyond ASCII that no edit deletes by an escape. -/
def substitutionRequests (draft : Draft) : Nat → Text → List Draft.Request
  | _, [] => []
  | offset, c :: cs =>
    (if Text.CharClass.isAscii c || draft.isDeleted offset then []
      else
        Draft.delete offset (offset + c.utf8Size - 1) ++
          Draft.insertBefore offset (Literal.escapeChar c)) ++
      substitutionRequests draft (offset + c.utf8Size) cs

def substitution (draft : Draft) : List Draft.Request := substitutionRequests draft 0 draft.source

def mixedModeIssues (s : Sketch) : List StructuralIssue :=
  (s.mixedModeConflict?.map fun stmt =>
    StructuralIssue.mk stmt.span.lo MessageTable.badMixedMode).toList

def structuralIssue (t : MessageTable) (tabs : List Tab) (i : StructuralIssue) : Issue :=
  let (line, column) := (Tab.lineColumn? tabs i.offset).getD (1, 0)
  Issue.diagnose t (t.hint i.key) line column (some (Tab.join tabs))

def syntaxIssue (t : MessageTable) (source : Text) (e : SyntaxError) : Issue :=
  Issue.diagnose t (e.message source) e.start.line e.start.column (some source)

/-- Everything that is put into the program apart from its header. -/
structure Plan where
  header : Text
  body : List Draft.Request
  footer : Text

def Plan.requests (p : Plan) (sourceSize : Nat) : List Draft.Request :=
  Draft.insertBefore 0 p.header ++ p.body ++
    if p.footer.isEmpty then [] else Draft.insertBefore sourceSize p.footer

/-- Record every edit, the substitution of characters last. -/
def carryOut (o : Options) (source : Text) (p : Plan) : Except Fault (Draft × Text) := do
  let draft ← recorded (Draft.ofSource source) (p.requests source.size)
  let draft ←
    if o.substituteUnicode then recorded draft (substitution draft) else pure draft
  match draft.text? with
  | some text => return (draft, text)
  | none => throw .brokenText
where
  recorded (draft : Draft) (qs : List Draft.Request) : Except Fault Draft :=
    match draft.recordAll qs with
    | (next, none) => .ok next
    | (_, some fault) => .error (.clash fault)

/-- Preprocess a sketch that has been read. -/
def ofSketch (o : Options) (t : MessageTable) (date : String) (tabs : List Tab) (source : Text)
    (s : Sketch) : Except Fault Outcome := do
  let mode := s.mode
  let c : Finding.Context := ⟨mode, o.substituteUnicode⟩
  let (discovered, badImports) := ImportTiers.discover s.items
  let tiers ←
    match importTiers o discovered with
    | .ok tiers => pure tiers.deduplicated
    | .error e => throw (.invalidImport e)
  let header ← (Frame.header? o mode tiers date).getDM (throw .noRoom)
  let header := c.prepare header.toList
  let findings := Finding.ofItems c s.items
  let settings ← (Finding.settings? source findings).getDM (throw .brokenArgument)
  match mixedModeIssues s ++ badImports ++ Finding.issues findings with
  | [] =>
    let hasMain := Finding.hasMain findings
    let footer ← (Frame.footer? o mode settings hasMain).getDM (throw .noRoom)
    let footer := c.prepare footer.toList
    let (draft, program) ← carryOut o source ⟨header, Finding.requests findings, footer⟩
    return .success {
      mode
      className := className o mode s.items
      headerLines := header.count '\n'
      imports := tiers.flatten
      edits := draft.edits
      width := settings.width
      height := settings.height
      renderer := settings.renderer
      hasMain
      program }
  | issues => return .failure (issues.map (structuralIssue t tabs))

end Preprocess

/-- Preprocess the tabs of a sketch. A syntax error counts more than anything else. -/
def preprocess (o : Options) (t : MessageTable) (date : String) (tabs : List Tab) :
    Except Preprocess.Fault Preprocess.Outcome :=
  let source := Tab.join tabs
  match Sketch.parse source with
  | .error e => .ok (.failure [Preprocess.syntaxIssue t source e])
  | .ok s => Preprocess.ofSketch o t date tabs source s

end SketchPrep
