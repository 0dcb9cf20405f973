import SketchPrep.Syntax.Declaration

/-!
Blocks and statements.
-/

namespace SketchPrep.Syntax

open Reader

variable (g : Grammar)

def block : Reader Block := do
  let start := (← get).lo
  let _ ← expect "\x7b"
  let stmts ← manyWhile (fun s => !s.isAt "\x7d" && !s.atEnd) g.blockStatement
  let _ ← expect "\x7d"
  return ⟨stmts, (← get).spanFrom start⟩

def parenExpr : Reader Expr := do
  let _ ← expect "("
  let e ← g.expr
  let _ ← expect ")"
  return e

def expressionStatement : Reader StmtKind := do
  let e ← expr g
  let _ ← expect ";"
  return .expr e

/-- An expression before a semicolon, or the semicolon alone. -/
def exprUntilSemicolon? : Reader (Option Expr) := do
  let e ← if (← get).isAt ";" then pure none else some <$> expr g
  let _ ← expect ";"
  return e

/-- A label before a semicolon, or the semicolon alone. -/
def labelUntilSemicolon? : Reader (Option Ident) := do
  let label ← if (← get).isAtKind .identifier then some <$> takeIdent else pure none
  let _ ← expect ";"
  return label

/-! ### Statements that begin with a keyword -/

def ifStatement : Reader StmtKind := do
  let _ ← expect "if"
  let cond ← parenExpr g
  let yes ← g.statement
  let no ← if ← eat "else" then some <$> g.statement else pure none
  return .ifElse cond yes no

def whileStatement : Reader StmtKind := do
  let _ ← expect "while"
  let cond ← parenExpr g
  return .whileDo cond (← g.statement)

def doStatement : Reader StmtKind := do
  let _ ← expect "do"
  let body ← g.statement
  let _ ← expect "while"
  let cond ← parenExpr g
  let _ ← expect ";"
  return .doWhile body cond

/-- An expression in place of a statement, without semicolon. -/
def bareExpr : Reader Stmt := do
  let e ← expr g
  return ⟨.expr e, e.span⟩

/-- A loop after its initialization. -/
def forRest (init : List Stmt) : Reader StmtKind := do
  let cond ← exprUntilSemicolon? g
  let update ← closeList (expr g)
  return .forLoop init cond update (← g.statement)

/-- A loop whose parenthesis opens with a variable: over a collection, or counting. -/
def forVariable : Reader StmtKind := do
  let start := (← get).lo
  let ms ← modifiers g
  let type ← typeRef g
  let name ← identifier
  if ← eat ":" then
    let iterable ← expr g
    let _ ← expect ")"
    return .forEach ⟨ms, type, false, name, 0⟩ iterable (← g.statement)
  let decl ← varDeclRest g start ms type name
  forRest g [⟨.localVar decl, decl.span⟩]

def forStatement : Reader StmtKind := do
  let _ ← expect "for"
  let _ ← expect "("
  if ← startsLocalVar g then forVariable g
  else
    let init ← if (← get).isAt ";" then pure [] else sepBy "," (bareExpr g)
    let _ ← expect ";"
    forRest g init

def returnStatement : Reader StmtKind := do
  let _ ← expect "return"
  return .returns (← exprUntilSemicolon? g)

def throwStatement : Reader StmtKind := do
  let _ ← expect "throw"
  let e ← expr g
  let _ ← expect ";"
  return .throws e

/-- A variable of its own, or an expression. -/
def resource : Reader Stmt := do
  let start := (← get).lo
  if ← startsLocalVar g then
    let ms ← modifiers g
    let type ← typeRef g
    let name ← identifier
    let _ ← expect "="
    let init ← expr g
    let span := (← get).spanFrom start
    return ⟨.localVar ⟨ms, type, [⟨name, 0, some init⟩], span⟩, span⟩
  bareExpr g

def resources : Reader (List Stmt) := do
  if ← eat "(" then
    let rs ← sepEndBy ";" (!·.isAt ")") (resource g)
    let _ ← expect ")"
    return rs
  return []

def catchClause : Reader CatchClause := do
  let _ ← expect "catch"
  let _ ← expect "("
  let ms ← modifiers g
  let types ← sepBy "|" (typeRef g)
  let name ← identifier
  let _ ← expect ")"
  return ⟨ms, types, name, ← block g⟩

/-- Without resources something has to follow the block. -/
def tryStatement : Reader StmtKind := do
  let _ ← expect "try"
  let rs ← resources g
  let body ← block g
  let catches ← manyWhile (·.isAt "catch") (catchClause g)
  let finalizer ← if ← eat "finally" then some <$> block g else pure none
  if catches.isEmpty && finalizer.isNone && rs.isEmpty then
    failWith (·.unexpected [.word "catch", .word "finally"])
  else return .tryCatch rs body catches finalizer

def caseLabels : Reader (List Expr) := do
  if ← eat "default" then return []
  let _ ← expect "case"
  sepBy "," (conditional g)

/-- What follows an arrow is one statement: a block, a `throw` or an expression. -/
def arrowBody : Reader Stmt := do
  let s ← get
  if s.isAt "\x7b" || s.isAt "throw" then g.statement
  else
    let kind ← expressionStatement g
    return ⟨kind, (← get).spanFrom s.lo⟩

def Stream.isInCase (s : Stream) : Bool :=
  !s.isAt "case" && !s.isAt "default" && !s.isAt "\x7d" && !s.atEnd

def switchCase : Reader SwitchCase := do
  let labels ← caseLabels g
  if ← eat "->" then return ⟨labels, [← arrowBody g], true⟩
  let _ ← expect ":"
  return ⟨labels, ← manyWhile Stream.isInCase g.blockStatement, false⟩

def switchStatement : Reader StmtKind := do
  let _ ← expect "switch"
  let selector ← parenExpr g
  let _ ← expect "\x7b"
  let cases ← manyWhile (fun s => !s.isAt "\x7d" && !s.atEnd) (switchCase g)
  let _ ← expect "\x7d"
  return .switch selector cases

def synchronizedStatement : Reader StmtKind := do
  let _ ← expect "synchronized"
  let lock ← parenExpr g
  return .synchronized lock (← block g)

def assertStatement : Reader StmtKind := do
  let _ ← expect "assert"
  let cond ← expr g
  let message ← if ← eat ":" then some <$> expr g else pure none
  let _ ← expect ";"
  return .assertion cond message

def breakStatement : Reader StmtKind := do
  let _ ← expect "break"
  return .breaks (← labelUntilSemicolon?)

def continueStatement : Reader StmtKind := do
  let _ ← expect "continue"
  return .continues (← labelUntilSemicolon?)

/-- A keyword that begins no statement may begin an expression. -/
def keywordStatement : Reader StmtKind := do
  match (← get).current.text with
  | "if" => ifStatement g
  | "while" => whileStatement g
  | "do" => doStatement g
  | "for" => forStatement g
  | "return" => returnStatement g
  | "break" => breakStatement
  | "continue" => continueStatement
  | "throw" => throwStatement g
  | "try" => tryStatement g
  | "switch" => switchStatement g
  | "synchronized" => synchronizedStatement g
  | "assert" => assertStatement g
  | _ => expressionStatement g

/-! ### Statements -/

def statementKind : Reader StmtKind := do
  let s ← get
  if s.isAt "\x7b" then return .block (← block g)
  if ← eat ";" then return .empty
  if s.isAtKind .keyword then keywordStatement g
  else if s.isAtKind .identifier && s.isNext ":" then
    let label ← takeIdent
    let _ ← take
    return .labeled label (← g.statement)
  else expressionStatement g

def statement : Reader Stmt := do
  let start ← beginDecision
  let kind ← statementKind g
  return ⟨kind, (← get).spanFrom start⟩

def localVar : Reader VarDecl := do
  let start := (← get).lo
  let ms ← modifiers g
  let type ← typeRef g
  let name ← identifier
  varDeclRest g start ms type name

/-- A statement, a local variable or a local class. -/
def blockStatement : Reader Stmt := do
  let start ← beginDecision
  if ← startsTypeDecl g then
    let ms ← modifiers g
    let decl ← typeDecl g start ms
    return ⟨.localType decl, decl.span⟩
  if ← startsLocalVar g then
    let decl ← localVar g
    return ⟨.localVar decl, decl.span⟩
  statement g

end SketchPrep.Syntax
