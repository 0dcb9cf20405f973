import SketchPrep.CommandLine.Arguments
import SketchPrep.Preprocess.Encoding

/-!
What the commands answer, given the files that can be read: texts to print, an exit code, and
perhaps a file to write.
-/

namespace SketchPrep.CommandLine

/-- The texts of the files that can be read. -/
abbrev Files := String → Option Text

structure Report where
  exitCode : Nat
  output : String
  errors : String
  deriving DecidableEq, Repr

/-- A file has to be written before its report is given. -/
inductive Answer where
  | report (r : Report)
  | write (path : String) (text : Text) (written : Report)
  deriving DecidableEq, Repr

/-- Why a command gives up. -/
inductive Fault where
  | unreadableTabs
  | badOptions (path : String)
  | badMessages (path : String)
  | unreadable (path : String)
  | unwritable (path : String)
  | preprocess (fault : Preprocess.Fault)

def Fault.message : Fault → String
  | unreadableTabs => "failed to read sketch tabs"
  | badOptions path => "failed to load options from " ++ path
  | badMessages path => "failed to load messages from " ++ path
  | unreadable path => "failed to read " ++ path
  | unwritable path => "failed to write " ++ path
  | preprocess fault => fault.message

def Fault.isPanic : Fault → Bool
  | preprocess fault => fault.isPanic
  | _ => false

namespace Report

/-- A fault that stops the program has an exit code of its own. -/
def ofFault (f : Fault) : Report :=
  if f.isPanic then ⟨101, "", "panicked: " ++ f.message ++ "\n"⟩
  else ⟨1, "", "Error: " ++ f.message ++ "\n"⟩

def ofUsageError (e : UsageError) : Report := ⟨2, "", "error: " ++ e.message ++ "\n"⟩

end Report

/-! ### The sketch and its options -/

/-- The name of a tab: the last part of its path without the extension. A name that begins with its
only dot has no extension. -/
def tabName (path : String) : String :=
  let parts := (Text.splitAll '/' path.toList).filter fun part => !(part = [] || part = ['.'])
  match parts.getLast? with
  | none | some ['.', '.'] => ""
  | some file =>
    match Text.splitLast? '.' file with
    | none | some ([], _) => String.ofList file
    | some (stem, _) => String.ofList stem

def readTabs (files : Files) (paths : List String) : Except Fault (List Tab) :=
  match paths.mapM fun path => (files path).map (Tab.mk (tabName path)) with
  | some tabs => .ok tabs
  | none => .error .unreadableTabs

def readOptions (files : Files) : Option String → Except Fault Options
  | none => .ok .standard
  | some path =>
    match (files path).bind Options.parse? with
    | some o => .ok o
    | none => .error (.badOptions path)

def readMessages (files : Files) : Option String → Except Fault MessageTable
  | none => .ok .standard
  | some path =>
    match (files path).bind MessageTable.parse? with
    | some t => .ok t
    | none => .error (.badMessages path)

/-- The options with what the command line says about the sketch. Without a file of options the
sketch has the name of its main tab. -/
def SketchArguments.apply (a : SketchArguments) (config : Option String) (tabs : List Tab)
    (o : Options) : Options :=
  let main? := if config.isNone then tabs.head?.map Tab.name else none
  { o with
    sketchName := (a.name <|> main?).getD o.sketchName
    destinationPackage := a.package <|> o.destinationPackage
    tabSize := a.tabSize.getD o.tabSize
    testing := o.testing || a.testing
    codeFolderPackages := o.codeFolderPackages ++ a.codeFolders }

def preprocessed (files : Files) (date : String) (i : Invocation) (a : SketchArguments) :
    Except Fault (List Tab × Preprocess.Outcome) := do
  let tabs ← readTabs files a.tabs
  let o ← readOptions files i.config
  let t ← readMessages files i.messages
  match preprocess (a.apply i.config tabs o) t date tabs with
  | .ok outcome => return (tabs, outcome)
  | .error fault => throw (.preprocess fault)

/-! ### Answers -/

/-- An issue at its place in the tab that holds it. -/
def issueLine (tabs : List Tab) (i : Issue) : String :=
  let place := Tab.locateLine tabs i.line
  let name := (tabs[place.tabIndex]?.map Tab.name).getD "?"
  s!"{name}:{place.line}:{i.column}: {i.message}\n"

def issuesReport (tabs : List Tab) (issues : List Issue) : Report :=
  ⟨1, "", String.join (issues.map (issueLine tabs))⟩

def preprocessAnswer (output : Option String) (tabs : List Tab) : Preprocess.Outcome → Answer
  | .failure issues => .report (issuesReport tabs issues)
  | .success s =>
    let done := s!"OK: {s.className} ({s.mode.name} mode)\n"
    match output with
    | some path => .write path s.program ⟨0, "", done⟩
    | none => .report ⟨0, String.ofList s.program, done⟩

def checkReport (tabs : List Tab) : Preprocess.Outcome → Report
  | .failure issues => issuesReport tabs issues
  | .success _ => ⟨0, "", "OK: " ++ ", ".intercalate (tabs.map Tab.name) ++ "\n"⟩

def editsReport (outcome : Preprocess.Outcome) : Report :=
  let code :=
    match outcome with
    | .success _ => 0
    | .failure _ => 1
  ⟨code, outcome.toJson.render ++ "\n", ""⟩

/-- A syntax error with its raw message; a sketch without one is not shown. -/
def parseReport (path : String) (source : Text) : Report :=
  match Sketch.parse source with
  | .ok _ => ⟨0, "", ""⟩
  | .error e =>
    ⟨1, "", s!"{path}:{e.start.line}:{e.start.column}: {e.message source}\n"⟩

def Invocation.answer (files : Files) (date : String) (i : Invocation) : Except Fault Answer := do
  match i.command with
  | .preprocess sketch output =>
    let (tabs, outcome) ← preprocessed files date i sketch
    return preprocessAnswer output tabs outcome
  | .check sketch =>
    let (tabs, outcome) ← preprocessed files date i sketch
    return .report (checkReport tabs outcome)
  | .edits sketch =>
    let (_, outcome) ← preprocessed files date i sketch
    return .report (editsReport outcome)
  | .parse path =>
    match files path with
    | some source => return .report (parseReport path source)
    | none => throw (.unreadable path)

/-- The answer to an invocation on the day `date`. -/
def Invocation.run (files : Files) (date : String) (i : Invocation) : Answer :=
  match i.answer files date with
  | .ok a => a
  | .error fault => .report (.ofFault fault)

/-- The report of an answer, told whether its file could be written. -/
def Answer.finish (isWritten : Bool) : Answer → Report
  | .report r => r
  | .write path _ written => if isWritten then written else .ofFault (.unwritable path)

end SketchPrep.CommandLine
