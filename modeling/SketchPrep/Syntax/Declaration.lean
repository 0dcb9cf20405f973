import SketchPrep.Syntax.Expression

/-!
Imports, variables, classes and methods.
-/

namespace SketchPrep.Syntax

open Reader

variable (g : Grammar)

/-- A package declaration, or nothing. -/
def packageDecl? : Reader (Option PackageDecl) := do
  let s ← get
  if s.isAt "package" then
    let _ ← take
    let name ← qualifiedName
    let _ ← expect ";"
    return some ⟨name, (← get).spanFrom s.lo⟩
  return none

def importDecl : Reader ImportDecl := do
  let start := (← get).lo
  let _ ← expect "import"
  let isStatic ← eat "static"
  let first ← identifier
  let others ← manyWhile (fun s => s.isAt "." && !s.isNext "*") do
    let _ ← take
    identifier
  let wildcard ← eat "."
  if wildcard then
    let _ ← expect "*"
  let _ ← expect ";"
  let name := ".".intercalate ((first :: others).map Ident.name)
  return ⟨isStatic, if wildcard then name ++ ".*" else name, wildcard, (← get).spanFrom start⟩

/-! ### Variables -/

def declaratorRest (name : Ident) : Reader Declarator := do
  let n ← dims
  if ← eat "=" then return ⟨name, n, some (← varInit g)⟩
  return ⟨name, n, none⟩

def declarator : Reader Declarator := do declaratorRest g (← identifier)

/-- Declarators after the first name, through the semicolon. -/
def varDeclRest (start : Nat) (ms : List Modifier) (type : TypeRef) (name : Ident) :
    Reader VarDecl := do
  let first ← declaratorRest g name
  let others ← manyWhile (·.isAt ",") do
    let _ ← take
    declarator g
  let _ ← expect ";"
  return ⟨ms, type, first :: others, (← get).spanFrom start⟩

/-- Modifiers, a type and a name come next: a variable declaration. -/
def startsLocalVar : Reader Bool := foresee do
  let _ ← modifiers g
  let _ ← typeRef g
  return (← get).isAtKind .identifier

/-! ### Classes -/

def Stream.isAtTypeKeyword (s : Stream) : Bool :=
  s.isAt "class" || s.isAt "interface" || s.isAt "enum" || (s.isAt "@" && s.isNext "interface")

def startsTypeDecl : Reader Bool := foresee do
  let _ ← modifiers g
  return (← get).isAtTypeKeyword

def typeDeclKind : Reader TypeDeclKind := do
  if ← eat "class" then return .classType
  if ← eat "interface" then return .interfaceType
  if ← eat "enum" then return .enumType
  if ← eat "@" then
    let _ ← expect "interface"
    return .annotationType
  failWith (·.unexpected [.word "class", .word "interface", .word "enum"])

def typeList : Reader (List TypeRef) := sepBy "," (typeRef g)

/-- The types after `word`, or none without it. -/
def typeClause (word : String) : Reader (List TypeRef) := do
  if ← eat word then typeList g else return []

def enumConstant : Reader EnumConstant := do
  let name ← identifier
  let args ← if (← get).isAt "(" then arguments g else pure []
  return ⟨name, args, ← classBody? g⟩

/-- The constants of an enumeration with the semicolon that may follow them. -/
def enumConstants : Reader (List EnumConstant) := do
  let constants ← sepEndBy "," (·.isAtKind .identifier) (enumConstant g)
  let _ ← eat ";"
  return constants

def typeDecl (start : Nat) (ms : List Modifier) : Reader TypeDecl := do
  let kind ← typeDeclKind
  let name ← identifier
  let params ← typeParams g
  let superTypes ← typeClause g "extends"
  let interfaces ← typeClause g "implements"
  let _ ← expect "\x7b"
  let constants ← if kind = .enumType then enumConstants g else pure []
  let members ← membersUntilClose g (some name.name)
  return ⟨ms, kind, name, params, superTypes, interfaces, constants, members,
    (← get).spanFrom start⟩

end SketchPrep.Syntax
