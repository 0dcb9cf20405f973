import SketchPrep.Import.Tiers
import SketchPrep.Options
import SketchPrep.Settings
import SketchPrep.Sketch.Mode

/-!
The code around a sketch: what stands before its first character and behind its last one.
-/

namespace SketchPrep.Frame

def packageLine (o : Options) : String :=
  match o.destinationPackage with
  | some package => "package " ++ package ++ ";\n\n"
  | none => ""

def banner (o : Options) (date : String) : String :=
  if o.testing then ""
  else
    "/* autogenerated by Processing preprocessor v" ++ o.version ++ " on " ++ date ++ " */\n"

/-- A tier's imports, and a blank line behind them. -/
def importLines (tier : List ImportStatement) : String :=
  if tier.isEmpty then "" else String.join (tier.map (·.sourceLine ++ "\n")) ++ "\n"

def classStart (o : Options) : String :=
  "public class " ++ o.sketchName ++ " extends PApplet \x7b\n\n"

def setupStart (indent : String) : String := indent ++ "public void setup() \x7b\n"

def opening? (o : Options) : SketchMode → Option String
  | .java => some ""
  | .active => some (classStart o)
  | .static => do return classStart o ++ setupStart (← o.indent? 1)

/-- What stands before the sketch, if there is room for its indentation. -/
def header? (o : Options) (mode : SketchMode) (tiers : List (List ImportStatement))
    (date : String) : Option String := do
  return packageLine o ++ banner o date ++ String.join (tiers.map importLines) ++
    (← opening? o mode)

/-- The first three levels of indentation. -/
structure Indents where
  one : String
  two : String
  three : String

/-- All three levels, whether they are written or not. -/
def indents? (o : Options) : Option Indents := do
  let one ← o.indent? 1
  let two ← o.indent? 2
  let three ← o.indent? 3
  return ⟨one, two, three⟩

def setupStop (i : Indents) : String :=
  i.two ++ "noLoop();\n" ++ i.one ++ "\x7d\n"

def settingsMethod (i : Indents) (s : Settings) : String :=
  "\n" ++ i.one ++ "public void settings() \x7b " ++ s.body ++ " \x7d\n"

/-- The arguments that present the sketch on the full screen. -/
def launchArgs (e : ExportOptions) : String :=
  if e.fullScreen then
    "\"--full-screen\", \"--bgcolor=" ++ e.background ++ "\", " ++
      if e.stopButton then "\"--stop-color=" ++ e.stopColor ++ "\", " else "\"--hide-stop\", "
  else ""

def mainMethod (o : Options) (i : Indents) : String :=
  "\n" ++ i.one ++ "static public void main(String[] passedArgs) \x7b\n" ++
    i.two ++ "String[] appletArgs = new String[] \x7b " ++ launchArgs o.exported ++ "\"" ++
      o.sketchName ++ "\" \x7d;\n" ++
    i.two ++ "if (passedArgs != null) \x7b\n" ++
    i.three ++ "PApplet.main(concat(appletArgs, passedArgs));\n" ++
    i.two ++ "\x7d else \x7b\n" ++
    i.three ++ "PApplet.main(appletArgs);\n" ++
    i.two ++ "\x7d\n" ++
    i.one ++ "\x7d\n"

/-- What stands behind the sketch. In Java mode the sketch has its class already, and nothing follows
it. -/
def footer? (o : Options) (mode : SketchMode) (s : Settings) (hasMain : Bool) : Option String :=
  if mode = .java then some ""
  else do
    let i ← indents? o
    return "\n" ++ (if mode = .static then setupStop i else "") ++
      (if s.isEmpty then "" else settingsMethod i s) ++
      (if hasMain then "" else mainMethod o i) ++ "\x7d\n"

end SketchPrep.Frame
