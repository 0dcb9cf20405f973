import SketchPrep.Edit.Draft
import SketchPrep.Import.Tiers
import SketchPrep.Literal
import SketchPrep.Settings
import SketchPrep.Sketch.Mode

/-!
What preprocessing finds in a sketch: the edits that make a program of it, the calls that may move
into `settings()`, issues, and whether the sketch has a `main` of its own. A walk visits each node
once and lists its findings in the order of the visit.
-/

namespace SketchPrep

inductive Finding where
  | edit (request : Draft.Request)
  | candidate (call : SettingsCall)
  | issue (issue : StructuralIssue)
  | main

namespace Finding

/-- In Java mode no call moves. `escapes` tells to write inserted text in ASCII. -/
structure Context where
  mode : SketchMode
  escapes : Bool
  deriving DecidableEq, Repr

namespace Context

def prepare (c : Context) (text : Text) : Text :=
  if c.escapes then Literal.escapeUnicode text else text

def insert (c : Context) (offset : Nat) (text : Text) : List Finding :=
  (Draft.insertBefore offset (c.prepare text)).map .edit

def replace (c : Context) (span : Span) (text : Text) : List Finding :=
  (Draft.replaceSpan span (c.prepare text)).map .edit

end Context

def marker (name : String) : Text :=
  ("/* " ++ name ++ " commented out by preprocessor */").toList

variable (c : Context)

/-! ### Types -/

mutual

def ofType : TypeRef → List Finding
  | ⟨kind, _, _⟩ => ofTypeKind kind

def ofTypeKind : TypeKind → List Finding
  | .primitive id => if id.name = "color" then c.replace id.span "int".toList else []
  | .named segments => ofSegments segments
  | .wildcard none => []
  | .wildcard (some bound) => ofType bound

def ofSegments : List TypeSegment → List Finding
  | [] => []
  | ⟨_, none⟩ :: segments => ofSegments segments
  | ⟨_, some args⟩ :: segments => ofTypes args ++ ofSegments segments

def ofTypes : List TypeRef → List Finding
  | [] => []
  | t :: ts => ofType t ++ ofTypes ts

end

def ofTypeParams (params : List TypeParam) : List Finding :=
  params.flatMap fun p => ofTypes c p.bounds

def ofLambdaParams (params : List LambdaParam) : List Finding :=
  ofTypes c (params.filterMap LambdaParam.type)

/-! ### Literals, conversions and methods -/

def ofLiteral (span : Span) (kind : LiteralKind) (text : Text) : List Finding :=
  match kind with
  | .float => if Literal.needsSuffix text then c.insert span.hi ['f'] else []
  | .hexColor => c.replace span (Literal.hexColor text)
  | .textBlock => c.replace span (Literal.textBlock text)
  | _ => []

/-- A call without target may be a conversion. -/
def ofConversion (name : Ident) : List Finding :=
  match Literal.conversion? name.name with
  | some method => c.replace name.span method.toList
  | none => []

/-- Methods of the sketch class have to be public; the word goes behind the annotations. -/
def ofVisibility (inSketchClass : Bool) (m : MethodDecl) : List Finding :=
  if inSketchClass && m.returnType.isSome && !Modifier.setVisibility m.modifiers then
    match Modifier.lastMarker? m.modifiers with
    | some a => c.insert a.span.hi " public".toList
    | none => c.insert m.span.lo "public ".toList
  else []

/-- A static method `main` that returns nothing. -/
def declaresMain (m : MethodDecl) : Bool :=
  m.name.name = "main" && m.modifiers.any (·.isKeyword "static") && m.returnsVoid

/-! ### Statements that move -/

/-- The call of a statement that may move to `settings()`. -/
def candidate? (hoists : Bool) (s : Stmt) : Option SettingsCall :=
  if hoists && c.mode ≠ .java then SettingsCall.candidate? s else none

/-- The call of a statement that moves. -/
def hoisted? (hoists : Bool) (s : Stmt) : Option SettingsCall :=
  (candidate? c hoists s).filter SettingsCall.isAccepted

def ofCandidate (hoists : Bool) (s : Stmt) : List Finding :=
  (candidate? c hoists s).toList.map .candidate

def ofHoisted (span : Span) (call : SettingsCall) : List Finding :=
  (Draft.replaceSpan span (marker call.name)).map .edit

/-! ### The tree -/

mutual

def ofExpr : Expr → List Finding
  | ⟨kind, span⟩ => ofExprKind span kind

def ofExprKind (span : Span) : ExprKind → List Finding
  | .literal kind text => ofLiteral c span kind text.toList
  | .name _ | .thisRef | .superRef => []
  | .paren inner => ofExpr inner
  | .field target _ | .methodRef target _ => ofExpr target
  | .call none name args => ofConversion c name ++ ofExprs args
  | .call (some target) _ args => ofExpr target ++ ofExprs args
  | .index target position => ofExpr target ++ ofExpr position
  | .create type args body => ofType c type ++ ofExprs args ++ ofClassBody body
  | .createArray type sizes _ init => ofType c type ++ ofExprs sizes ++ ofOptional init
  | .arrayInit elements => ofExprs elements
  | .unary _ operand _ => ofExpr operand
  | .binary _ lhs rhs | .assign _ lhs rhs => ofExpr lhs ++ ofExpr rhs
  | .conditional cond yes no => ofExpr cond ++ ofExpr yes ++ ofExpr no
  | .cast type operand | .instanceOf operand type => ofType c type ++ ofExpr operand
  | .lambda params (.expr body) => ofLambdaParams c params ++ ofExpr body
  | .lambda params (.block body) => ofLambdaParams c params ++ ofBlock false body
  | .classLiteral type => ofType c type

def ofExprs : List Expr → List Finding
  | [] => []
  | e :: es => ofExpr e ++ ofExprs es

def ofOptional : Option Expr → List Finding
  | none => []
  | some e => ofExpr e

/-- The body of an anonymous class, which is never the sketch class. -/
def ofClassBody : Option (List Member) → List Finding
  | none => []
  | some members => ofMembers false members

def ofModifiers : List Modifier → List Finding
  | [] => []
  | .marker ⟨_, args, _⟩ :: ms => ofExprs args ++ ofModifiers ms
  | .keyword _ :: ms => ofModifiers ms

def ofParam : Param → List Finding
  | ⟨ms, type, _, _, _⟩ => ofModifiers ms ++ ofType c type

def ofParams : List Param → List Finding
  | [] => []
  | p :: ps => ofParam p ++ ofParams ps

def ofDeclarators : List Declarator → List Finding
  | [] => []
  | ⟨_, _, init⟩ :: ds => ofOptional init ++ ofDeclarators ds

def ofVarDecl : VarDecl → List Finding
  | ⟨ms, type, declarators, _⟩ => ofModifiers ms ++ ofType c type ++ ofDeclarators declarators

/-- `hoists` tells whether the block is the body of the sketch's `setup()`. -/
def ofBlock (hoists : Bool) : Block → List Finding
  | ⟨stmts, _⟩ => ofStmts hoists stmts

def ofOptionalBlock (hoists : Bool) : Option Block → List Finding
  | none => []
  | some b => ofBlock hoists b

def ofStmts (hoists : Bool) : List Stmt → List Finding
  | [] => []
  | s :: ss => ofStmt hoists s ++ ofStmts hoists ss

def ofStmt (hoists : Bool) : Stmt → List Finding
  | ⟨kind, span⟩ =>
    ofCandidate c hoists ⟨kind, span⟩ ++
      match hoisted? c hoists ⟨kind, span⟩ with
      | some call => ofHoisted span call
      | none => ofStmtKind kind

def ofOptionalStmt : Option Stmt → List Finding
  | none => []
  | some s => ofStmt false s

def ofStmtKind : StmtKind → List Finding
  | .block b => ofBlock false b
  | .localVar decl => ofVarDecl decl
  | .localType decl => ofTypeDecl decl
  | .expr e | .throws e => ofExpr e
  | .ifElse cond yes no => ofExpr cond ++ ofStmt false yes ++ ofOptionalStmt no
  | .whileDo cond body | .doWhile body cond => ofExpr cond ++ ofStmt false body
  | .forLoop init cond update body =>
    ofStmts false init ++ ofOptional cond ++ ofExprs update ++ ofStmt false body
  | .forEach loopVar iterable body => ofParam loopVar ++ ofExpr iterable ++ ofStmt false body
  | .returns value => ofOptional value
  | .tryCatch resources body catches finalizer =>
    ofStmts false resources ++ ofBlock false body ++ ofCatches catches ++
      ofOptionalBlock false finalizer
  | .switch selector cases => ofExpr selector ++ ofCases cases
  | .synchronized lock body => ofExpr lock ++ ofBlock false body
  | .labeled _ body => ofStmt false body
  | .assertion cond message => ofExpr cond ++ ofOptional message
  | .breaks _ | .continues _ | .empty => []

def ofCatches : List CatchClause → List Finding
  | [] => []
  | ⟨ms, types, _, body⟩ :: cs =>
    ofModifiers ms ++ ofTypes c types ++ ofBlock false body ++ ofCatches cs

def ofCases : List SwitchCase → List Finding
  | [] => []
  | ⟨labels, body, _⟩ :: cs => ofExprs labels ++ ofStmts false body ++ ofCases cs

def ofMethod (inSketchClass : Bool) : MethodDecl → List Finding
  | ⟨ms, typeParams, returnType, name, params, exceptions, body, span⟩ =>
    let m : MethodDecl := ⟨ms, typeParams, returnType, name, params, exceptions, body, span⟩
    ofVisibility c inSketchClass m ++ (if inSketchClass && declaresMain m then [.main] else []) ++
      ofModifiers ms ++ ofTypeParams c typeParams ++ ofTypes c returnType.toList ++
      ofParams params ++ ofTypes c exceptions ++
      ofOptionalBlock (inSketchClass && name.name = "setup") body

def ofConstants : List EnumConstant → List Finding
  | [] => []
  | ⟨_, args, body⟩ :: cs => ofExprs args ++ ofClassBody body ++ ofConstants cs

def ofTypeDecl : TypeDecl → List Finding
  | ⟨ms, kind, name, typeParams, superTypes, interfaces, constants, members, span⟩ =>
    let t : TypeDecl :=
      ⟨ms, kind, name, typeParams, superTypes, interfaces, constants, members, span⟩
    ofModifiers ms ++ ofTypeParams c typeParams ++ ofTypes c superTypes ++
      ofTypes c interfaces ++ ofConstants constants ++ ofMembers t.isSketchClass members

def ofMember (inSketchClass : Bool) : Member → List Finding
  | .field decl => ofVarDecl decl
  | .method decl => ofMethod inSketchClass decl
  | .constructor decl => ofMethod false decl
  | .type decl => ofTypeDecl decl
  | .initializer _ body => ofBlock false body
  | .importation decl => [.issue ⟨decl.span.lo, MessageTable.badImport⟩]
  | .empty _ => []

def ofMembers (inSketchClass : Bool) : List Member → List Finding
  | [] => []
  | m :: ms => ofMember inSketchClass m ++ ofMembers inSketchClass ms

end

def ofItem : Item → List Finding
  | .importation decl => (Draft.deleteSpan decl.span).map .edit
  | .type decl => ofTypeDecl c decl
  | .method decl => ofMethod c true decl
  | .stmt s => ofStmt c true s

def ofItems (items : List Item) : List Finding := items.flatMap (ofItem c)

/-! ### Views of findings -/

def request? : Finding → Option Draft.Request
  | .edit q => some q
  | _ => none

def call? : Finding → Option SettingsCall
  | .candidate call => some call
  | _ => none

def issue? : Finding → Option StructuralIssue
  | .issue i => some i
  | _ => none

def isMain : Finding → Bool
  | .main => true
  | _ => false

def requests (fs : List Finding) : List Draft.Request := fs.filterMap request?

def settings? (source : Text) (fs : List Finding) : Option Settings :=
  Settings.ofCalls? source (fs.filterMap call?)

def issues (fs : List Finding) : List StructuralIssue := fs.filterMap issue?

def hasMain (fs : List Finding) : Bool := fs.any isMain

end Finding

end SketchPrep
