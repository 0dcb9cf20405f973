import SketchPrep.Text.Search
import SketchPrep.Syntax.Tree

/-!
Import statements, split into a package and a member. The member of a static import begins with
the type that declares it: `static a.b.Util.max` has the package `a.b` and the member `Util.max`.
-/

namespace SketchPrep

structure ImportStatement where
  package : String
  member : String
  isStatic : Bool
  wildcard : Bool
  deriving DecidableEq, Repr

namespace ImportStatement

/-- The name that was asked to be imported cannot be. -/
structure Invalid where
  text : String
  deriving DecidableEq, Repr

def Invalid.message (e : Invalid) : String :=
  "invalid import \x60" ++ e.text ++ "\x60"

def wholePackage (package : String) : ImportStatement := ⟨package, "*", false, true⟩

def singleClass (name : String) : ImportStatement :=
  match Text.splitLast? '.' name.toList with
  | some (package, member) => ⟨String.ofList package, String.ofList member, false, false⟩
  | none => ⟨"", name, false, false⟩

/-- What follows `word` and a blank, if the text begins so. -/
def afterWord? (word : String) (cs : Text) : Option Text :=
  (Text.after? word.toList cs).filter fun rest => rest.head?.any Text.CharClass.isSpace

/-- The imported name in `[import] [static] name[;]`, and whether the import is static. -/
def staticAndName (text : Text) : Bool × Text :=
  let trimmed := Text.trimEnd (Text.trimStart text)
  let closed := if trimmed.getLast? = some ';' then Text.trimEnd trimmed.dropLast else trimmed
  let named := ((afterWord? "import" closed).map Text.trimStart).getD closed
  match afterWord? "static" named with
  | some rest => (true, rest)
  | none => (false, named)

def isPart (cs : Text) : Bool :=
  !cs.isEmpty && cs.all fun c => Text.CharClass.isAlphanumeric c || c = '_' || c = '$'

/-- Read `[import] [static] a.b.C[;]`. Blanks inside the name are dropped. -/
def parse (text : String) : Except Invalid ImportStatement :=
  let (isStatic, rest) := staticAndName text.toList
  let name := rest.filter (!Text.CharClass.isSpace ·)
  match Text.splitLast? '.' name with
  | none => .error ⟨text⟩
  | some (package, member) =>
    if (Text.splitAll '.' package).all isPart && (member = ['*'] || isPart member) then
      let wildcard := member = ['*']
      if isStatic then
        let (outer, type) := (Text.splitLast? '.' package).getD ([], package)
        .ok ⟨String.ofList outer, String.ofList (type ++ '.' :: member), true, wildcard⟩
      else .ok ⟨String.ofList package, String.ofList member, false, wildcard⟩
    else .error ⟨text⟩

def ofDecl (decl : ImportDecl) : Except Invalid ImportStatement :=
  parse (if decl.isStatic then "static " ++ decl.name else decl.name)

def fullName (i : ImportStatement) : String :=
  if i.package.isEmpty then i.member else i.package ++ "." ++ i.member

def sourceLine (i : ImportStatement) : String :=
  "import " ++ (if i.isStatic then "static " else "") ++ i.fullName ++ ";"

/-- Whether two imports bring in the same names. -/
def sameAs (i j : ImportStatement) : Bool :=
  i.package = j.package && i.member = j.member && i.isStatic = j.isStatic

end ImportStatement

end SketchPrep
