import SketchPrep.Syntax.Types

/-!
Expressions, by the precedence of their operators.
-/

namespace SketchPrep.Syntax

open Reader

variable (g : Grammar)

def assignOperators : List String :=
  ["=", "+=", "-=", "*=", "/=", "%=", "&=", "|=", "^=", "<<=", ">>=", ">>>="]

def unaryOperators : List String := ["+", "-", "!", "~", "++", "--"]

/-- How tightly a binary operator binds; all of them group to the left. -/
def precedence? : String → Option Nat
  | "||" => some 1
  | "&&" => some 2
  | "|" => some 3
  | "^" => some 4
  | "&" => some 5
  | "==" | "!=" => some 6
  | "<" | ">" | "<=" | ">=" | "instanceof" => some 7
  | "<<" | ">>" | ">>>" => some 8
  | "+" | "-" => some 9
  | "*" | "/" | "%" => some 10
  | _ => none

/-- The primitive type names that are also conversions, as in `int(x)`. -/
def conversions : List String := ["boolean", "byte", "char", "float", "int"]

/-- The operator at the current token and how many tokens it takes. -/
def Stream.operator (s : Stream) : String × Nat :=
  if s.isAtKind .punctuation || s.isAtKind .keyword then s.current.operator s.ahead.tail
  else ("", 0)

def takeMany : Nat → Reader Unit
  | 0 => return ()
  | n + 1 => do
    let _ ← take
    takeMany n

/-! ### Lambdas -/

/-- Whether the parenthesis that opens `depth` levels up closes right before an arrow. -/
def closesBeforeArrow : Nat → List Token → Bool
  | _, [] => false
  | depth, t :: ts =>
    if t.is "(" then closesBeforeArrow (depth + 1) ts
    else if t.is ")" then
      if depth ≤ 1 then ts.head?.any (·.is "->") else closesBeforeArrow (depth - 1) ts
    else closesBeforeArrow depth ts

/-- A name without type stands before a comma or the closing parenthesis. -/
def lambdaParam : Reader LambdaParam := do
  let s ← get
  if s.isAtKind .identifier && (s.isNext "," || s.isNext ")") then
    return ⟨none, ← takeIdent⟩
  let p ← param g
  return ⟨some p.type, p.name⟩

def lambdaRest (start : Nat) (params : List LambdaParam) : Reader Expr := do
  let _ ← expect "->"
  let body ← if (← get).isAt "\x7b" then LambdaBody.block <$> g.block else .expr <$> g.expr
  return ⟨.lambda params body, (← get).spanFrom start⟩

def lambda? : Reader (Option Expr) := do
  let s ← get
  if s.isAtKind .identifier && s.isNext "->" then
    let name ← takeIdent
    return some (← lambdaRest g s.lo [⟨none, name⟩])
  if s.isAt "(" && closesBeforeArrow 0 s.ahead then
    let _ ← take
    let params ← sepEndBy "," (!·.isAt ")") (lambdaParam g)
    let _ ← expect ")"
    return some (← lambdaRest g s.lo params)
  return none

/-! ### Operands -/

def arrayInit : Reader Expr := do
  let start := (← get).lo
  let _ ← expect "\x7b"
  let elements ← sepEndBy "," (!·.isAt "\x7d") g.varInit
  let _ ← expect "\x7d"
  return ⟨.arrayInit elements, (← get).spanFrom start⟩

def arguments : Reader (List Expr) := parenList g.expr

def call (target : Option Expr) (name : Ident) (start : Nat) : Reader Expr := do
  let args ← arguments g
  return ⟨.call target name args, (← get).spanFrom start⟩

/-- Members up to the brace that closes the class. -/
def membersUntilClose (className : Option String) : Reader (List Member) := do
  let members ← manyWhile (fun s => !s.isAt "\x7d" && !s.atEnd) (g.member className)
  let _ ← expect "\x7d"
  return members

/-- The body of an anonymous class, or nothing. -/
def classBody? : Reader (Option (List Member)) := do
  if ← eat "\x7b" then return some (← membersUntilClose g none)
  return none

def arraySize : Reader Expr := do
  let _ ← take
  let size ← g.expr
  let _ ← expect "]"
  return size

def arrayRest (start : Nat) (type : TypeRef) : Reader Expr := do
  let sizes ← manyWhile (fun s => s.isAt "[" && !s.isNext "]") (arraySize g)
  let extra ← dims
  let init ← if (← get).isAt "\x7b" then some <$> arrayInit g else pure none
  return ⟨.createArray type sizes extra init, (← get).spanFrom start⟩

def creation : Reader Expr := do
  let start := (← get).lo
  let _ ← expect "new"
  let type ← elementType g
  if (← get).isAt "[" then arrayRest g start type
  else
    let args ← arguments g
    let body ← classBody? g
    return ⟨.create type args body, (← get).spanFrom start⟩

def literal (kind : LiteralKind) : Reader Expr := do
  let t ← take
  return ⟨.literal kind t.text, t.span⟩

/-- The current token as the name of a call, or else as what `plain` makes of it. -/
def nameOrCall (plain : Ident → ExprKind) : Reader Expr := do
  let id ← takeIdent
  if (← get).isAt "(" then call g none id id.span.lo
  else return ⟨plain id, id.span⟩

def classLiteral : Reader Expr := do
  let start := (← get).lo
  let type ← typeRef g
  if (← get).isAt "." && (← get).isNext "class" then
    takeMany 2
    return ⟨.classLiteral type, (← get).spanFrom start⟩
  failWith Stream.noViable

def keywordOperand : Reader Expr := do
  let s ← get
  match s.current.text with
  | "true" | "false" => literal .bool
  | "null" => literal .null
  | "this" => nameOrCall g fun _ => .thisRef
  | "super" => nameOrCall g fun _ => .superRef
  | "new" => creation g
  | word =>
    if conversions.contains word && s.isNext "(" then nameOrCall g .name
    else if s.current.isPrimitiveType || word = "void" then classLiteral g
    else failWith Stream.noViable

def parenthesized : Reader Expr := do
  let start := (← get).lo
  let _ ← expect "("
  let inner ← g.expr
  let _ ← expect ")"
  return ⟨.paren inner, (← get).spanFrom start⟩

def primary : Reader Expr := do
  let s ← get
  match s.current.kind with
  | .intLiteral => literal .int
  | .floatLiteral => literal .float
  | .hexColor => literal .hexColor
  | .charLiteral => literal .char
  | .stringLiteral => literal .string
  | .textBlock => literal .textBlock
  | .identifier => nameOrCall g .name
  | .keyword => keywordOperand g
  | .punctuation => if s.isAt "(" then parenthesized g else failWith Stream.noViable
  | .endOfInput => failWith Stream.noViable

/-! ### Selectors -/

/-- The name after a point, which may be one of four keywords. -/
def selectedName : Reader Ident := do
  if ["class", "this", "super", "new"].any (← get).isAt then takeIdent else identifier

/-- Explicit type arguments of a call are read as type parameters, and dropped. -/
def selection (e : Expr) : Reader Expr := do
  if (← get).isAt "<" then
    let _ ← typeParams g
  let name ← selectedName
  if (← get).isAt "(" then call g (some e) name e.span.lo
  else return ⟨.field e name, (← get).spanFrom e.span.lo⟩

def indexing (e : Expr) : Reader Expr := do
  let position ← g.expr
  let _ ← expect "]"
  return ⟨.index e position, (← get).spanFrom e.span.lo⟩

def methodReference (e : Expr) : Reader Expr := do
  let name ← if (← get).isAt "new" then takeIdent else identifier
  return ⟨.methodRef e name, (← get).spanFrom e.span.lo⟩

/-- What may follow an operand: a selection, an index, an increment or a method reference. -/
def selector (e : Expr) : Reader (Option Expr) := do
  let s ← get
  if ← eat "." then return some (← selection g e)
  if ← eat "[" then return some (← indexing g e)
  if s.isAt "++" || s.isAt "--" then
    let t ← take
    return some ⟨.unary t.text e true, (← get).spanFrom e.span.lo⟩
  if ← eat "::" then return some (← methodReference e)
  return none

/-! ### Operators -/

/-- Whether a type in parentheses is a cast of what `next` begins. A name in parentheses may also
be an operand, so what follows must not be able to go on as an operator. -/
def readsAsCast (type : TypeRef) (next : Token) : Bool :=
  match type.kind with
  | .primitive id => id.name ≠ "void"
  | .named _ =>
    next.kind = .identifier || next.isLiteral ||
      ["(", "!", "~", "this", "super", "new"].any next.is || next.isPrimitiveType
  | .wildcard _ => false

/-- The type of a cast with its parentheses, or nothing. -/
def castType? : Reader (Option TypeRef) := fun s =>
  if s.isAt "(" then
    match typeRef g s.advance with
    | .ok (type, next) =>
      if next.isAt ")" && readsAsCast type (next.nth 1) then .ok (some type, next.advance)
      else .ok (none, s)
    | .error _ => .ok (none, s)
  else .ok (none, s)

def unary : Reader Expr := do
  let s ← get
  match unaryOperators.find? s.isAt with
  | some op =>
    let _ ← take
    let operand ← g.unary
    return ⟨.unary op operand false, ⟨s.lo, operand.span.hi⟩⟩
  | none =>
    match ← castType? g with
    | some type =>
      let operand ← g.unary
      return ⟨.cast type operand, ⟨s.lo, operand.span.hi⟩⟩
    | none => extend (selector g) (← primary g)

/-- The name that a type test may bind is dropped. -/
def typeTest (lhs : Expr) : Reader Expr := do
  let isFinal ← eat "final"
  let type ← typeRef g
  if isFinal || (← get).isAtKind .identifier then
    let _ ← identifier
  return ⟨.instanceOf lhs type, (← get).spanFrom lhs.span.lo⟩

/-- An operator that binds at least as tightly as `least`, with its right operand. -/
def operation (least : Nat) (lhs : Expr) : Reader (Option Expr) := do
  let (op, n) := (← get).operator
  match precedence? op with
  | none => return none
  | some p =>
    if p < least then return none
    takeMany n
    if op = "instanceof" then return some (← typeTest g lhs)
    let rhs ← g.binary (p + 1)
    return some ⟨.binary op lhs rhs, lhs.span.upTo rhs.span⟩

def binary (least : Nat) : Reader Expr := do
  extend (operation g least) (← unary g)

def conditional : Reader Expr := do
  let cond ← binary g 1
  if ← eat "?" then
    let yes ← g.expr
    let _ ← expect ":"
    let no ← match ← lambda? g with
      | some e => pure e
      | none => g.conditional
    return ⟨.conditional cond yes no, cond.span.upTo no.span⟩
  return cond

def expr : Reader Expr := do
  match ← lambda? g with
  | some e => return e
  | none =>
    let lhs ← conditional g
    let (op, n) := (← get).operator
    if assignOperators.contains op then
      takeMany n
      let rhs ← g.expr
      return ⟨.assign op lhs rhs, lhs.span.upTo rhs.span⟩
    return lhs

/-- What initializes a variable: an expression, or elements in braces. -/
def varInit : Reader Expr := do
  if (← get).isAt "\x7b" then arrayInit g else expr g

end SketchPrep.Syntax
