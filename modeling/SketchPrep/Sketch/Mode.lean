import SketchPrep.Syntax.Tree

/-!
How a sketch has to be wrapped, by the shape of its top level.
-/

namespace SketchPrep

/-- `static`: bare statements, which become the body of `setup()`. `active`: methods, which become
members of the sketch class. `java`: the sketch class is there already. -/
inductive SketchMode where
  | static
  | active
  | java
  deriving DecidableEq, Repr

namespace SketchMode

def name : SketchMode → String
  | .static => "static"
  | .active => "active"
  | .java => "java"

end SketchMode

namespace Item

def isMethod : Item → Bool
  | .method _ => true
  | _ => false

def isSketchClass : Item → Bool
  | .type t => t.isSketchClass
  | _ => false

/-- An import or a class. -/
def isDeclaration : Item → Bool
  | .importation _ | .type _ => true
  | _ => false

/-- A statement that declares nothing and does something. -/
def bare? : Item → Option Stmt
  | .stmt s =>
    match s.kind with
    | .localVar _ | .localType _ | .empty => none
    | _ => some s
  | _ => none

end Item

namespace Sketch

def mode (s : Sketch) : SketchMode :=
  if s.items.all Item.isDeclaration && s.items.any Item.isSketchClass then .java
  else if s.items.any Item.isMethod then .active
  else .static

/-- The first bare statement next to methods, where none may stand. -/
def mixedModeConflict? (s : Sketch) : Option Stmt :=
  if s.items.any Item.isMethod then s.items.findSome? Item.bare? else none

end Sketch

end SketchPrep
