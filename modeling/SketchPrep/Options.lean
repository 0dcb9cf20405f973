import SketchPrep.Json.Reader

/-!
What can be chosen about the generated program, and how it is read from JSON: every field may be
missing, and then has its standard value.
-/

namespace SketchPrep

/-- How the program that `main` starts presents the sketch. -/
structure ExportOptions where
  fullScreen : Bool
  background : String
  stopButton : Bool
  stopColor : String
  deriving DecidableEq, Repr

/-- A string has fewer bytes than that, `2 ^ 63`. -/
def stringLimit : Nat := 0x8000000000000000

/-- `testing` leaves out the banner with the date, `substituteUnicode` writes everything in
ASCII. -/
structure Options where
  sketchName : String
  tabSize : Nat
  destinationPackage : Option String
  testing : Bool
  substituteUnicode : Bool
  version : String
  codeFolderPackages : List String
  coreImports : List String
  defaultImports : List String
  exported : ExportOptions
  deriving DecidableEq, Repr

def ExportOptions.standard : ExportOptions := ⟨false, "#666666", true, "#cccccc"⟩

namespace Options

def standard : Options where
  sketchName := "Sketch"
  tabSize := 2
  destinationPackage := none
  testing := false
  substituteUnicode := false
  version := "3.0.0"
  codeFolderPackages := []
  coreImports :=
    ["processing.core.*", "processing.data.*", "processing.event.*", "processing.opengl.*"]
  defaultImports :=
    ["java.util.HashMap", "java.util.ArrayList", "java.io.File", "java.io.BufferedReader",
      "java.io.PrintWriter", "java.io.InputStream", "java.io.OutputStream", "java.io.IOException"]
  exported := .standard

/-- The blanks of an indentation, if a string can have that many. A product that no machine word
holds is too large as well, since the level below it is asked for first. -/
def indent? (o : Options) (level : Nat) : Option String :=
  if o.tabSize * level < stringLimit then
    some (String.ofList (List.replicate (o.tabSize * level) ' '))
  else none

end Options

def ExportOptions.ofJson? (j : Json) : Option ExportOptions := do
  let fields ← j.fields? ["fullscreen", "bgcolor", "stop_button", "stop_color"]
  let d := standard
  return {
    fullScreen := ← Json.field? fields 0 Json.bool? d.fullScreen
    background := ← Json.field? fields 1 Json.string? d.background
    stopButton := ← Json.field? fields 2 Json.bool? d.stopButton
    stopColor := ← Json.field? fields 3 Json.string? d.stopColor }

namespace Options

def ofJson? (j : Json) : Option Options := do
  let fields ← j.fields? ["sketch_name", "tab_size", "destination_package", "testing",
    "substitute_unicode", "version", "code_folder_packages", "core_imports", "default_imports",
    "export"]
  let d := standard
  return {
    sketchName := ← Json.field? fields 0 Json.string? d.sketchName
    tabSize := ← Json.field? fields 1 Json.natural? d.tabSize
    destinationPackage :=
      ← Json.field? fields 2 (Json.nullable? Json.string?) d.destinationPackage
    testing := ← Json.field? fields 3 Json.bool? d.testing
    substituteUnicode := ← Json.field? fields 4 Json.bool? d.substituteUnicode
    version := ← Json.field? fields 5 Json.string? d.version
    codeFolderPackages := ← Json.field? fields 6 Json.strings? d.codeFolderPackages
    coreImports := ← Json.field? fields 7 Json.strings? d.coreImports
    defaultImports := ← Json.field? fields 8 Json.strings? d.defaultImports
    exported := ← Json.field? fields 9 ExportOptions.ofJson? d.exported }

/-- The options of a JSON text, if it is well formed and every field has its type. -/
def parse? (text : Text) : Option Options := (Json.parse? text).bind ofJson?

end Options

end SketchPrep
