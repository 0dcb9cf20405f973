import SketchPrep.Syntax.Statement

/-!
Class members and whole sketches.
-/

namespace SketchPrep.Syntax

open Reader

variable (g : Grammar)

/-- The default value of an annotation's element is read and dropped. -/
def methodBody (hasThrows : Bool) : Reader (Option Block) := do
  if (← get).isAt "\x7b" then return some (← block g)
  if ← eat ";" then return none
  if ← eat "default" then
    let _ ← varInit g
    let _ ← expect ";"
    return none
  failWith (·.unexpected
    (if hasThrows then [.word "\x7b", .word ";"]
      else [.word "throws", .word "\x7b", .word "[", .word ";"]))

/-- A method after its name. -/
def methodRest (start : Nat) (ms : List Modifier) (typeParams : List TypeParam)
    (returnType : Option TypeRef) (name : Ident) : Reader MethodDecl := do
  let params ← parenList (param g)
  let _ ← dims
  let exceptions ← typeClause g "throws"
  let body ← methodBody g (!exceptions.isEmpty)
  return ⟨ms, typeParams, returnType, name, params, exceptions, body, (← get).spanFrom start⟩

def initializer (isStatic : Bool) : Reader Member := do
  return .initializer isStatic (← block g)

/-- A constructor, method or field after its modifiers. -/
def typedMember (className : Option String) (start : Nat) (ms : List Modifier) :
    Reader Member := do
  let params ← typeParams g
  let s ← get
  if s.isAtKind .identifier && className = some s.current.text && s.isNext "(" then
    let name ← takeIdent
    return .constructor (← methodRest g start ms params none name)
  let type ← typeRef g
  let name ← identifier
  if (← get).isAt "(" then
    return .method (← methodRest g start ms params (some type) name)
  return .field (← varDeclRest g start ms type name)

def member (className : Option String) : Reader Member := do
  let start ← beginDecision
  let s ← get
  if s.isAt ";" then
    let t ← take
    return .empty t.span
  if s.isAt "import" then return .importation (← importDecl)
  if s.isAt "\x7b" then initializer g false
  else if s.isAt "static" && s.isNext "\x7b" then
    let _ ← take
    initializer g true
  else
    let ms ← modifiers g
    if (← get).isAtTypeKeyword then return .type (← typeDecl g start ms)
    typedMember g className start ms

/-- Modifiers, a type, a name and a parenthesis come next: a method. -/
def startsMethod : Reader Bool := foresee do
  let _ ← modifiers g
  let _ ← typeParams g
  let _ ← typeRef g
  return (← get).isAtKind .identifier && (← get).isNext "("

def method : Reader MethodDecl := do
  let start := (← get).lo
  let ms ← modifiers g
  let params ← typeParams g
  let type ← typeRef g
  let name ← identifier
  methodRest g start ms params (some type) name

def item : Reader Item := do
  let start ← beginDecision
  if (← get).isAt "import" then return .importation (← importDecl)
  if ← startsTypeDecl g then
    let ms ← modifiers g
    return .type (← typeDecl g start ms)
  if ← startsMethod g then return .method (← method g)
  return .stmt (← blockStatement g)

def sketch (length : Nat) : Reader Sketch := do
  let package ← packageDecl?
  let items ← manyWhile (!·.atEnd) (item g)
  return ⟨package, items, ⟨0, length⟩⟩

/-- The grammar for streams of fewer than `n` tokens: each nesting has one token less at least. -/
def grammarBelow : Nat → Grammar
  | 0 => .nothing
  | n + 1 =>
    let g := grammarBelow n
    { type := typeRef g
      unary := unary g
      binary := binary g
      conditional := conditional g
      expr := expr g
      varInit := varInit g
      block := block g
      statement := statement g
      blockStatement := blockStatement g
      member := member g }

end Syntax

/-- The tree of a sketch, or its first syntax error. -/
def Sketch.parse (source : Text) : Except SyntaxError Sketch :=
  match Token.tokenize source with
  | .error u => .error (.ofUnrecognized u)
  | .ok ts =>
    match Syntax.sketch (Syntax.grammarBelow (ts.body.length + 1)) source.size (.ofTokens ts) with
    | .error e => .error e
    | .ok (s, _) => .ok s

end SketchPrep
