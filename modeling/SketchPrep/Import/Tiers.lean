import SketchPrep.Import.Statement
import SketchPrep.Diagnosis.Messages

/-!
Imports in the order in which the generated program lists them.
-/

namespace SketchPrep

/-- A problem in the structure of a sketch: where it is, and the key of its message. -/
structure StructuralIssue where
  offset : Nat
  key : String
  deriving DecidableEq, Repr

structure ImportTiers where
  core : List ImportStatement
  codeFolder : List ImportStatement
  discovered : List ImportStatement
  standard : List ImportStatement
  deriving DecidableEq, Repr

namespace ImportTiers

/-- The imports of `tier` that neither `seen` nor an earlier part of the tier lists. -/
def unseen (seen : List ImportStatement) : List ImportStatement → List ImportStatement
  | [] => []
  | i :: tier =>
    if seen.any (·.sameAs i) then unseen seen tier else i :: unseen (seen ++ [i]) tier

def unseenTiers (seen : List ImportStatement) :
    List (List ImportStatement) → List (List ImportStatement)
  | [] => []
  | tier :: tiers =>
    let kept := unseen seen tier
    kept :: unseenTiers (seen ++ kept) tiers

/-- Each import stays in the first tier that lists it, and there once. -/
def deduplicated (t : ImportTiers) : List (List ImportStatement) :=
  unseenTiers [] [t.core, t.codeFolder, t.discovered, t.standard]

def all (t : ImportTiers) : List ImportStatement := t.deduplicated.flatten

/-- The statements of names, or the first name that is invalid. -/
def parseAll (names : List String) : Except ImportStatement.Invalid (List ImportStatement) :=
  names.mapM ImportStatement.parse

/-- A code folder's package is imported whole. -/
def codeFolderName (package : String) : String :=
  if package.endsWith ".*" then package else package ++ ".*"

/-- The top-level imports of a sketch, and the issues of those whose names are invalid. -/
def discover (items : List Item) : List ImportStatement × List StructuralIssue :=
  let found := items.filterMap fun
    | .importation decl => some (decl, ImportStatement.ofDecl decl)
    | _ => none
  (found.filterMap fun (_, r) => r.toOption,
    found.filterMap fun (decl, r) =>
      match r with
      | .ok _ => none
      | .error _ => some ⟨decl.span.lo, MessageTable.badImport⟩)

end ImportTiers

end SketchPrep
