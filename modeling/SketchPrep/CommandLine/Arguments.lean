import SketchPrep.Json.Basic
import SketchPrep.Text.Search

/-!
Reading the words of a command line: the command, the options that every command knows, which may
also stand before it, and the options of a sketch.
-/

namespace SketchPrep.CommandLine

/-- What is preprocessed. Paths name the tabs, the main tab first. -/
structure SketchArguments where
  tabs : List String
  name : Option String
  package : Option String
  tabSize : Option Nat
  testing : Bool
  codeFolders : List String
  deriving DecidableEq, Repr

inductive Command where
  | preprocess (sketch : SketchArguments) (output : Option String)
  | check (sketch : SketchArguments)
  | edits (sketch : SketchArguments)
  | parse (path : String)
  deriving DecidableEq, Repr

/-- A command with the files that hold its options and its messages. -/
structure Invocation where
  command : Command
  config : Option String
  messages : Option String
  deriving DecidableEq, Repr

inductive Flag where
  | verbose
  | config
  | messages
  | name
  | package
  | tabSize
  | testing
  | codeFolder
  | output
  deriving DecidableEq, Repr

/-- Why the words cannot be understood. -/
inductive UsageError where
  | unknownFlag (text : String)
  | missingValue (flag : Flag)
  | unexpectedValue (flag : Flag)
  | repeated (flag : Flag)
  | badValue (flag : Flag) (text : String)
  | misplaced (flag : Flag)
  | missingCommand
  | unknownCommand (text : String)
  | missingPath
  | emptyPath
  | extraWord (text : String)
  deriving DecidableEq, Repr

namespace Flag

def all : List Flag :=
  [verbose, config, messages, name, package, tabSize, testing, codeFolder, output]

def longName : Flag → String
  | verbose => "verbose"
  | config => "config"
  | messages => "messages"
  | name => "name"
  | package => "package"
  | tabSize => "tab-size"
  | testing => "testing"
  | codeFolder => "code-folder"
  | output => "output"

def ofLongName? (text : String) : Option Flag := all.find? (·.longName = text)

def ofLetter? : Char → Option Flag
  | 'v' => some verbose
  | 'o' => some output
  | _ => none

def takesValue : Flag → Bool
  | verbose | testing => false
  | _ => true

/-- Every command knows these flags, and they may stand before it. -/
def isGlobal : Flag → Bool
  | verbose | config | messages => true
  | _ => false

end Flag

namespace UsageError

def message : UsageError → String
  | unknownFlag text => "unknown option " ++ text
  | missingValue flag => "option --" ++ flag.longName ++ " needs a value"
  | unexpectedValue flag => "option --" ++ flag.longName ++ " takes no value"
  | repeated flag => "option --" ++ flag.longName ++ " is given twice"
  | badValue flag text => "bad value " ++ text ++ " of option --" ++ flag.longName
  | misplaced flag => "option --" ++ flag.longName ++ " cannot be given here"
  | missingCommand => "no command is given"
  | unknownCommand text => "unknown command " ++ text
  | missingPath => "no file is given"
  | emptyPath => "a file name is empty"
  | extraWord text => "unexpected argument " ++ text

end UsageError

/-- A switch has the empty value. -/
inductive Item where
  | flag (flag : Flag) (value : String)
  | word (text : String)
  deriving DecidableEq, Repr

/-- The flags that one argument gives, and the one whose value is the next argument. -/
abbrev Flags := List Item × Option Flag

def longFlag (text : Text) : Except UsageError Flags :=
  let (name, value) :=
    match Text.splitFirst? ['='] text with
    | some (name, value) => (name, some (String.ofList value))
    | none => (text, none)
  match Flag.ofLongName? (String.ofList name) with
  | none => .error (.unknownFlag ("--" ++ String.ofList name))
  | some f =>
    match value with
    | some v => if f.takesValue then .ok ([.flag f v], none) else .error (.unexpectedValue f)
    | none => if f.takesValue then .ok ([], some f) else .ok ([.flag f ""], none)

/-- Letters of flags; what follows one that takes a value is its value. -/
def letterFlags : Text → Except UsageError Flags
  | [] => .ok ([], none)
  | c :: cs =>
    match Flag.ofLetter? c with
    | none => .error (.unknownFlag (String.ofList ['-', c]))
    | some f =>
      if f.takesValue then
        match cs with
        | [] => .ok ([], some f)
        | '=' :: value => .ok ([.flag f (String.ofList value)], none)
        | value => .ok ([.flag f (String.ofList value)], none)
      else (letterFlags cs).map fun (found, waiting) => (.flag f "" :: found, waiting)

/-- A dash alone is a word. -/
def argument (text : String) : Except UsageError Flags :=
  match text.toList with
  | '-' :: '-' :: name => longFlag name
  | '-' :: c :: cs => letterFlags (c :: cs)
  | _ => .ok ([.word text], none)

def looksLikeFlag (text : String) : Bool := text ≠ "-" && text.toList.head? = some '-'

/-- Behind two dashes there are only words. -/
def items : List String → Except UsageError (List Item)
  | [] => .ok []
  | "--" :: args => .ok (args.map .word)
  | arg :: args => do
    match ← argument arg, args with
    | (found, none), args => return found ++ (← items args)
    | (_, some f), [] => throw (.missingValue f)
    | (found, some f), value :: args =>
      if looksLikeFlag value then throw (.missingValue f)
      else return found ++ .flag f value :: (← items args)

/-! ### The values of flags -/

def values (f : Flag) (given : List Item) : List String :=
  given.filterMap fun
    | .flag g v => if f = g then some v else none
    | .word _ => none

def value? (f : Flag) (given : List Item) : Except UsageError (Option String) :=
  match values f given with
  | [] => .ok none
  | [v] => .ok (some v)
  | _ => .error (.repeated f)

def checkPath (path : String) : Except UsageError String :=
  if path.isEmpty then .error .emptyPath else .ok path

def path? (f : Flag) (given : List Item) : Except UsageError (Option String) := do
  match ← value? f given with
  | none => return none
  | some path => return some (← checkPath path)

/-- A decimal number of 64 bits, perhaps with a plus sign. -/
def natural? (text : Text) : Option Nat :=
  let digits := (Text.after? ['+'] text).getD text
  if !digits.isEmpty && digits.all Char.isDigit && Json.decimal digits < UInt64.size then
    some (Json.decimal digits)
  else none

def number? (f : Flag) (given : List Item) : Except UsageError (Option Nat) := do
  match ← value? f given with
  | none => return none
  | some text =>
    match natural? text.toList with
    | some n => return some n
    | none => throw (.badValue f text)

def words (given : List Item) : List String :=
  given.filterMap fun
    | .word w => some w
    | .flag _ _ => none

/-- Refuse flags that `known` does not hold of. -/
def checkFlags (known : Flag → Bool) (given : List Item) : Except UsageError Unit :=
  let unknown? : Item → Option Flag
    | .flag f _ => if known f then none else some f
    | .word _ => none
  match given.findSome? unknown? with
  | some f => .error (.misplaced f)
  | none => .ok ()

/-! ### Commands -/

def sketchArguments (given : List Item) : Except UsageError SketchArguments := do
  let tabs ← (words given).mapM checkPath
  if tabs.isEmpty then throw .missingPath
  return {
    tabs
    name := ← value? .name given
    package := ← value? .package given
    tabSize := ← number? .tabSize given
    testing := (← value? .testing given).isSome
    codeFolders := values .codeFolder given }

def isSketchFlag : Flag → Bool
  | .output => false
  | _ => true

def readCommand (name : String) (given : List Item) : Except UsageError Command := do
  match name with
  | "preprocess" => return .preprocess (← sketchArguments given) (← path? .output given)
  | "check" =>
    checkFlags isSketchFlag given
    return .check (← sketchArguments given)
  | "edits" =>
    checkFlags isSketchFlag given
    return .edits (← sketchArguments given)
  | "parse" =>
    checkFlags Flag.isGlobal given
    match words given with
    | [] => throw .missingPath
    | [path] => return .parse (← checkPath path)
    | _ :: extra :: _ => throw (.extraWord extra)
  | _ => throw (.unknownCommand name)

def isFlag : Item → Bool
  | .flag _ _ => true
  | .word _ => false

/-- The invocation that the words of a command line ask for. What follows the command counts more
than what stands before it. -/
def Invocation.ofWords (args : List String) : Except UsageError Invocation := do
  let given ← items args
  let before := given.takeWhile isFlag
  checkFlags Flag.isGlobal before
  match given.dropWhile isFlag with
  | .word name :: after =>
    let _ ← value? .verbose before
    let _ ← value? .verbose after
    return {
      command := ← readCommand name after
      config := (← path? .config after) <|> (← path? .config before)
      messages := (← path? .messages after) <|> (← path? .messages before) }
  | _ => throw .missingCommand

/-- The files that an invocation reads. -/
def Invocation.paths (i : Invocation) : List String :=
  let tabs :=
    match i.command with
    | .preprocess s _ | .check s | .edits s => s.tabs
    | .parse path => [path]
  tabs ++ i.config.toList ++ i.messages.toList

end SketchPrep.CommandLine
