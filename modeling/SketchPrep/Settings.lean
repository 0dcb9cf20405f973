import SketchPrep.Syntax.Tree

/-!
The calls that have to move into the method `settings()` of the generated class, and what they
set there. Of calls that set the same, the last one counts.
-/

namespace SketchPrep

/-- A call statement without a receiver of its own. -/
structure SettingsCall where
  name : String
  args : List Expr

/-- What has been set, each argument as its source text. -/
structure Settings where
  hasSize : Bool
  isFullScreen : Bool
  hasDensity : Bool
  hasSmooth : Bool
  hasNoSmooth : Bool
  width : Option String
  height : Option String
  renderer : Option String
  outputFile : Option String
  density : Option String
  smoothLevel : Option String
  fullScreenArgs : List String
  deriving DecidableEq, Repr

namespace SettingsCall

/-- The calls that may have to move. -/
def names : List String := ["size", "fullScreen", "pixelDensity", "smooth", "noSmooth"]

/-- The constants that an argument known before the sketch runs may name. -/
def staticConstants : List String :=
  ["displayWidth", "displayHeight", "P2D", "P3D", "JAVA2D", "FX2D", "OPENGL", "PDF", "SVG", "DXF",
    "SPAN"]

/-- The types that may qualify those constants. -/
def constantOwners : List String := ["PConstants", "PApplet"]

/-- Made of literals, operators, parentheses and constants. -/
def isStaticExpr : Expr → Bool
  | ⟨.literal _ _, _⟩ => true
  | ⟨.name id, _⟩ => staticConstants.contains id.name
  | ⟨.field ⟨.name owner, _⟩ id, _⟩ =>
    constantOwners.contains owner.name && staticConstants.contains id.name
  | ⟨.paren inner, _⟩ => isStaticExpr inner
  | ⟨.unary _ operand _, _⟩ => isStaticExpr operand
  | ⟨.binary _ lhs rhs, _⟩ => isStaticExpr lhs && isStaticExpr rhs
  | ⟨.conditional cond yes no, _⟩ => isStaticExpr cond && isStaticExpr yes && isStaticExpr no
  | _ => false

/-- Only `size` needs arguments known before the sketch runs; the other calls are told by how many
arguments they have. -/
def isAccepted (c : SettingsCall) : Bool :=
  match c.name with
  | "size" => 2 ≤ c.args.length && c.args.length ≤ 4 && c.args.all isStaticExpr
  | "fullScreen" => c.args.length ≤ 2
  | "pixelDensity" => c.args.length = 1
  | "smooth" => c.args.length ≤ 1
  | "noSmooth" => c.args.isEmpty
  | _ => false

/-- The implicit receiver, `this` or `super`. -/
def isOwnReceiver : Option Expr → Bool
  | none => true
  | some ⟨.thisRef, _⟩ | some ⟨.superRef, _⟩ => true
  | some _ => false

/-- The call that a statement makes, if it has the right receiver. -/
def ofStmt? (s : Stmt) : Option SettingsCall :=
  match s.kind with
  | .expr ⟨.call target name args, _⟩ =>
    if isOwnReceiver target then some ⟨name.name, args⟩ else none
  | _ => none

/-- The call that a statement makes, if it is one that may have to move. -/
def candidate? (s : Stmt) : Option SettingsCall :=
  (ofStmt? s).filter fun c => names.contains c.name

/-- The first argument may name a renderer; a number names a display. -/
def namesRenderer (c : SettingsCall) : Bool :=
  match c.args with
  | ⟨.literal .int _, _⟩ :: _ => false
  | _ => true

end SettingsCall

namespace Settings

def unset : Settings :=
  ⟨false, false, false, false, false, none, none, none, none, none, none, []⟩

/-- The source text of an argument, if no character is cut. -/
def argText? (source : Text) (e : Expr) : Option String :=
  (source.slice? e.span.lo e.span.hi).map String.ofList

/-- The settings after an accepted call, given the texts of its arguments. -/
def set (s : Settings) (c : SettingsCall) (texts : List String) : Settings :=
  match c.name with
  | "size" =>
    { s with
      hasSize := true
      isFullScreen := false
      width := texts[0]?
      height := texts[1]?
      renderer := texts[2]?
      outputFile := texts[3]?
      fullScreenArgs := [] }
  | "fullScreen" =>
    { s with
      hasSize := true
      isFullScreen := true
      width := some "displayWidth"
      height := some "displayHeight"
      renderer := if c.namesRenderer then texts.head? else none
      outputFile := none
      fullScreenArgs := texts }
  | "pixelDensity" => { s with hasDensity := true, density := texts.head? }
  | "smooth" => { s with hasSmooth := true, smoothLevel := texts.head? }
  | "noSmooth" => { s with hasNoSmooth := true }
  | _ => s

/-- The settings after a call and whether it moves. Its arguments are copied before that is
decided. -/
def tryHoist? (source : Text) (s : Settings) (c : SettingsCall) : Option (Settings × Bool) := do
  let texts ← c.args.mapM (argText? source)
  return if c.isAccepted then (s.set c texts, true) else (s, false)

/-- The settings after calls, one after the other. -/
def ofCalls? (source : Text) (calls : List SettingsCall) : Option Settings :=
  calls.foldlM (fun s c => (s.tryHoist? source c).map Prod.fst) unset

def isEmpty (s : Settings) : Bool :=
  !(s.hasSize || s.hasDensity || s.hasSmooth || s.hasNoSmooth)

/-- The arguments of `size` up to the first that is missing. -/
def sizeArgs (s : Settings) : List String :=
  ([s.width, s.height, s.renderer, s.outputFile].takeWhile Option.isSome).filterMap id

def call (name : String) (args : List String) : String :=
  name ++ "(" ++ ", ".intercalate args ++ ");"

/-- The statements of `settings()`. -/
def statements (s : Settings) : List String :=
  (if !s.hasSize then []
    else if s.isFullScreen then [call "fullScreen" s.fullScreenArgs]
    else [call "size" s.sizeArgs]) ++
  (if s.hasDensity then s.density.toList.map fun d => call "pixelDensity" [d] else []) ++
  (if s.hasSmooth then [call "smooth" s.smoothLevel.toList] else []) ++
  (if s.hasNoSmooth then [call "noSmooth" []] else [])

/-- The body of `settings()`, on one line. -/
def body (s : Settings) : String := " ".intercalate s.statements

end Settings

end SketchPrep
