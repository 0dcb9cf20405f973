import SketchPrep.Proofs.Syntax.Parts

/-!
Trees without their spans. Two trees are the same up to spans if they are equal without them. Main
statement: `parts_unspanned`, the parts of a tree without spans are its parts without spans.
-/

namespace SketchPrep

def Span.nowhere : Span := ⟨0, 0⟩

def Ident.unspanned (id : Ident) : Ident := { id with span := .nowhere }

def ImportDecl.unspanned (d : ImportDecl) : ImportDecl := { d with span := .nowhere }

def PackageDecl.unspanned (d : PackageDecl) : PackageDecl := { d with span := .nowhere }

mutual

def TypeRef.unspanned : TypeRef → TypeRef
  | ⟨kind, dims, _⟩ => ⟨kind.unspanned, dims, .nowhere⟩

def TypeKind.unspanned : TypeKind → TypeKind
  | .primitive name => .primitive name.unspanned
  | .named segments => .named (unspannedSegments segments)
  | .wildcard none => .wildcard none
  | .wildcard (some bound) => .wildcard (some bound.unspanned)

def TypeSegment.unspanned : TypeSegment → TypeSegment
  | ⟨name, none⟩ => ⟨name.unspanned, none⟩
  | ⟨name, some args⟩ => ⟨name.unspanned, some (unspannedTypes args)⟩

def unspannedSegments : List TypeSegment → List TypeSegment
  | [] => []
  | s :: ss => s.unspanned :: unspannedSegments ss

def unspannedTypes : List TypeRef → List TypeRef
  | [] => []
  | t :: ts => t.unspanned :: unspannedTypes ts

end

def LambdaParam.unspanned (p : LambdaParam) : LambdaParam :=
  ⟨p.type.map TypeRef.unspanned, p.name.unspanned⟩

def TypeParam.unspanned (p : TypeParam) : TypeParam :=
  ⟨p.name.unspanned, p.bounds.map TypeRef.unspanned⟩

mutual

def Expr.unspanned : Expr → Expr
  | ⟨kind, _⟩ => ⟨kind.unspanned, .nowhere⟩

def ExprKind.unspanned : ExprKind → ExprKind
  | .literal kind text => .literal kind text
  | .name id => .name id.unspanned
  | .thisRef => .thisRef
  | .superRef => .superRef
  | .paren inner => .paren inner.unspanned
  | .field target name => .field target.unspanned name.unspanned
  | .call target name args =>
    .call (unspannedOptional target) name.unspanned (unspannedExprs args)
  | .index target position => .index target.unspanned position.unspanned
  | .create type args body =>
    .create type.unspanned (unspannedExprs args) (unspannedClassBody body)
  | .createArray type sizes extraDims init =>
    .createArray type.unspanned (unspannedExprs sizes) extraDims (unspannedOptional init)
  | .arrayInit elements => .arrayInit (unspannedExprs elements)
  | .unary op operand trailing => .unary op operand.unspanned trailing
  | .binary op lhs rhs => .binary op lhs.unspanned rhs.unspanned
  | .assign op lhs rhs => .assign op lhs.unspanned rhs.unspanned
  | .conditional cond yes no => .conditional cond.unspanned yes.unspanned no.unspanned
  | .cast type operand => .cast type.unspanned operand.unspanned
  | .instanceOf operand type => .instanceOf operand.unspanned type.unspanned
  | .lambda params body => .lambda (params.map LambdaParam.unspanned) body.unspanned
  | .methodRef target name => .methodRef target.unspanned name.unspanned
  | .classLiteral type => .classLiteral type.unspanned

def LambdaBody.unspanned : LambdaBody → LambdaBody
  | .expr e => .expr e.unspanned
  | .block b => .block b.unspanned

def unspannedExprs : List Expr → List Expr
  | [] => []
  | e :: es => e.unspanned :: unspannedExprs es

def unspannedOptional : Option Expr → Option Expr
  | none => none
  | some e => some e.unspanned

def unspannedClassBody : Option (List Member) → Option (List Member)
  | none => none
  | some members => some (unspannedMembers members)

def Annotation.unspanned : Annotation → Annotation
  | ⟨name, args, _⟩ => ⟨name, unspannedExprs args, .nowhere⟩

def Modifier.unspanned : Modifier → Modifier
  | .marker a => .marker a.unspanned
  | .keyword word => .keyword word.unspanned

def unspannedModifiers : List Modifier → List Modifier
  | [] => []
  | m :: ms => m.unspanned :: unspannedModifiers ms

def Param.unspanned : Param → Param
  | ⟨modifiers, type, varargs, name, dims⟩ =>
    ⟨unspannedModifiers modifiers, type.unspanned, varargs, name.unspanned, dims⟩

def unspannedParams : List Param → List Param
  | [] => []
  | p :: ps => p.unspanned :: unspannedParams ps

def Declarator.unspanned : Declarator → Declarator
  | ⟨name, dims, init⟩ => ⟨name.unspanned, dims, unspannedOptional init⟩

def unspannedDeclarators : List Declarator → List Declarator
  | [] => []
  | d :: ds => d.unspanned :: unspannedDeclarators ds

def VarDecl.unspanned : VarDecl → VarDecl
  | ⟨modifiers, type, declarators, _⟩ =>
    ⟨unspannedModifiers modifiers, type.unspanned, unspannedDeclarators declarators, .nowhere⟩

def Block.unspanned : Block → Block
  | ⟨stmts, _⟩ => ⟨unspannedStmts stmts, .nowhere⟩

def unspannedOptionalBlock : Option Block → Option Block
  | none => none
  | some b => some b.unspanned

def Stmt.unspanned : Stmt → Stmt
  | ⟨kind, _⟩ => ⟨kind.unspanned, .nowhere⟩

def unspannedStmts : List Stmt → List Stmt
  | [] => []
  | s :: ss => s.unspanned :: unspannedStmts ss

def unspannedOptionalStmt : Option Stmt → Option Stmt
  | none => none
  | some s => some s.unspanned

def StmtKind.unspanned : StmtKind → StmtKind
  | .block b => .block b.unspanned
  | .localVar decl => .localVar decl.unspanned
  | .localType decl => .localType decl.unspanned
  | .expr e => .expr e.unspanned
  | .ifElse cond yes no => .ifElse cond.unspanned yes.unspanned (unspannedOptionalStmt no)
  | .whileDo cond body => .whileDo cond.unspanned body.unspanned
  | .doWhile body cond => .doWhile body.unspanned cond.unspanned
  | .forLoop init cond update body =>
    .forLoop (unspannedStmts init) (unspannedOptional cond) (unspannedExprs update) body.unspanned
  | .forEach loopVar iterable body => .forEach loopVar.unspanned iterable.unspanned body.unspanned
  | .returns value => .returns (unspannedOptional value)
  | .breaks label => .breaks (label.map Ident.unspanned)
  | .continues label => .continues (label.map Ident.unspanned)
  | .throws value => .throws value.unspanned
  | .tryCatch resources body catches finalizer =>
    .tryCatch (unspannedStmts resources) body.unspanned (unspannedCatches catches)
      (unspannedOptionalBlock finalizer)
  | .switch selector cases => .switch selector.unspanned (unspannedCases cases)
  | .synchronized lock body => .synchronized lock.unspanned body.unspanned
  | .labeled label body => .labeled label.unspanned body.unspanned
  | .assertion cond message => .assertion cond.unspanned (unspannedOptional message)
  | .empty => .empty

def CatchClause.unspanned : CatchClause → CatchClause
  | ⟨modifiers, types, name, body⟩ =>
    ⟨unspannedModifiers modifiers, types.map TypeRef.unspanned, name.unspanned, body.unspanned⟩

def unspannedCatches : List CatchClause → List CatchClause
  | [] => []
  | k :: ks => k.unspanned :: unspannedCatches ks

def SwitchCase.unspanned : SwitchCase → SwitchCase
  | ⟨labels, body, arrow⟩ => ⟨unspannedExprs labels, unspannedStmts body, arrow⟩

def unspannedCases : List SwitchCase → List SwitchCase
  | [] => []
  | k :: ks => k.unspanned :: unspannedCases ks

def MethodDecl.unspanned : MethodDecl → MethodDecl
  | ⟨modifiers, typeParams, returnType, name, params, exceptions, body, _⟩ =>
    ⟨unspannedModifiers modifiers, typeParams.map TypeParam.unspanned,
      returnType.map TypeRef.unspanned, name.unspanned, unspannedParams params,
      exceptions.map TypeRef.unspanned, unspannedOptionalBlock body, .nowhere⟩

def EnumConstant.unspanned : EnumConstant → EnumConstant
  | ⟨name, args, body⟩ => ⟨name.unspanned, unspannedExprs args, unspannedClassBody body⟩

def unspannedConstants : List EnumConstant → List EnumConstant
  | [] => []
  | k :: ks => k.unspanned :: unspannedConstants ks

def TypeDecl.unspanned : TypeDecl → TypeDecl
  | ⟨modifiers, kind, name, typeParams, superTypes, interfaces, constants, members, _⟩ =>
    ⟨unspannedModifiers modifiers, kind, name.unspanned, typeParams.map TypeParam.unspanned,
      superTypes.map TypeRef.unspanned, interfaces.map TypeRef.unspanned,
      unspannedConstants constants, unspannedMembers members, .nowhere⟩

def Member.unspanned : Member → Member
  | .field decl => .field decl.unspanned
  | .method decl => .method decl.unspanned
  | .constructor decl => .constructor decl.unspanned
  | .type decl => .type decl.unspanned
  | .initializer isStatic body => .initializer isStatic body.unspanned
  | .importation decl => .importation decl.unspanned
  | .empty _ => .empty .nowhere

def unspannedMembers : List Member → List Member
  | [] => []
  | m :: ms => m.unspanned :: unspannedMembers ms

end

def Item.unspanned : Item → Item
  | .importation decl => .importation decl.unspanned
  | .type decl => .type decl.unspanned
  | .method decl => .method decl.unspanned
  | .stmt s => .stmt s.unspanned

/-! A list loses its spans member by member. What may be absent stays absent. -/

@[simp] theorem unspannedSegments_eq (ss : List TypeSegment) :
    unspannedSegments ss = ss.map TypeSegment.unspanned := by
  induction ss with
  | nil => rfl
  | cons s ss ih => simp [unspannedSegments, ih]

@[simp] theorem unspannedTypes_eq (ts : List TypeRef) :
    unspannedTypes ts = ts.map TypeRef.unspanned := by
  induction ts with
  | nil => rfl
  | cons t ts ih => simp [unspannedTypes, ih]

@[simp] theorem unspannedExprs_eq (es : List Expr) :
    unspannedExprs es = es.map Expr.unspanned := by
  induction es with
  | nil => rfl
  | cons e es ih => simp [unspannedExprs, ih]

@[simp] theorem unspannedModifiers_eq (ms : List Modifier) :
    unspannedModifiers ms = ms.map Modifier.unspanned := by
  induction ms with
  | nil => rfl
  | cons m ms ih => simp [unspannedModifiers, ih]

@[simp] theorem unspannedParams_eq (ps : List Param) :
    unspannedParams ps = ps.map Param.unspanned := by
  induction ps with
  | nil => rfl
  | cons p ps ih => simp [unspannedParams, ih]

@[simp] theorem unspannedDeclarators_eq (ds : List Declarator) :
    unspannedDeclarators ds = ds.map Declarator.unspanned := by
  induction ds with
  | nil => rfl
  | cons d ds ih => simp [unspannedDeclarators, ih]

@[simp] theorem unspannedStmts_eq (ss : List Stmt) :
    unspannedStmts ss = ss.map Stmt.unspanned := by
  induction ss with
  | nil => rfl
  | cons s ss ih => simp [unspannedStmts, ih]

@[simp] theorem unspannedCatches_eq (ks : List CatchClause) :
    unspannedCatches ks = ks.map CatchClause.unspanned := by
  induction ks with
  | nil => rfl
  | cons k ks ih => simp [unspannedCatches, ih]

@[simp] theorem unspannedCases_eq (ks : List SwitchCase) :
    unspannedCases ks = ks.map SwitchCase.unspanned := by
  induction ks with
  | nil => rfl
  | cons k ks ih => simp [unspannedCases, ih]

@[simp] theorem unspannedConstants_eq (ks : List EnumConstant) :
    unspannedConstants ks = ks.map EnumConstant.unspanned := by
  induction ks with
  | nil => rfl
  | cons k ks ih => simp [unspannedConstants, ih]

@[simp] theorem unspannedMembers_eq (ms : List Member) :
    unspannedMembers ms = ms.map Member.unspanned := by
  induction ms with
  | nil => rfl
  | cons m ms ih => simp [unspannedMembers, ih]

@[simp] theorem unspannedOptional_eq (e : Option Expr) :
    unspannedOptional e = e.map Expr.unspanned := by
  cases e <;> rfl

@[simp] theorem unspannedClassBody_eq (body : Option (List Member)) :
    unspannedClassBody body = body.map (List.map Member.unspanned) := by
  cases body <;> simp [unspannedClassBody]

@[simp] theorem unspannedOptionalBlock_eq (b : Option Block) :
    unspannedOptionalBlock b = b.map Block.unspanned := by
  cases b <;> rfl

@[simp] theorem unspannedOptionalStmt_eq (s : Option Stmt) :
    unspannedOptionalStmt s = s.map Stmt.unspanned := by
  cases s <;> rfl

theorem MethodDecl.unspanned_eq (m : MethodDecl) : m.unspanned =
    ⟨m.modifiers.map Modifier.unspanned, m.typeParams.map TypeParam.unspanned,
      m.returnType.map TypeRef.unspanned, m.name.unspanned, m.params.map Param.unspanned,
      m.exceptions.map TypeRef.unspanned, m.body.map Block.unspanned, .nowhere⟩ := by
  cases m
  simp [MethodDecl.unspanned]

def Phrase.unspanned : Phrase → Phrase
  | .word w => .word w
  | .token t => .token t
  | .name id => .name id.unspanned
  | .callName id => .callName id.unspanned
  | .typeKind k => .typeKind k.unspanned
  | .segment s => .segment s.unspanned
  | .type t => .type t.unspanned
  | .typeParam p => .typeParam p.unspanned
  | .marker a => .marker a.unspanned
  | .modifier m => .modifier m.unspanned
  | .param p => .param p.unspanned
  | .lambdaParam p => .lambdaParam p.unspanned
  | .lambdaBody b => .lambdaBody b.unspanned
  | .expr e => .expr e.unspanned
  | .declarator d => .declarator d.unspanned
  | .varDecl d => .varDecl d.unspanned
  | .enumConstant k => .enumConstant k.unspanned
  | .typeDecl d => .typeDecl d.unspanned
  | .block b => .block b.unspanned
  | .catchClause k => .catchClause k.unspanned
  | .switchCase k => .switchCase k.unspanned
  | .stmtKind k => .stmtKind k.unspanned
  | .stmt s => .stmt s.unspanned
  | .inHead s => .inHead s.unspanned
  | .methodDecl d => .methodDecl d.unspanned
  | .member m => .member m.unspanned
  | .packageDecl d => .packageDecl d.unspanned
  | .importDecl d => .importDecl d.unspanned
  | .item i => .item i.unspanned

namespace Phrase

theorem exprParts_unspanned (kind : ExprKind) :
    kind.unspanned.parts = kind.parts.map unspanned := by
  cases kind with
  | call target name args =>
    cases target <;> simp [ExprKind.unspanned, ExprKind.parts, unspanned, Function.comp_def]
  | create type args body =>
    cases body <;> simp [ExprKind.unspanned, ExprKind.parts, unspanned, Function.comp_def]
  | createArray type sizes dims init =>
    cases init <;> simp [ExprKind.unspanned, ExprKind.parts, unspanned, Function.comp_def]
  | _ => simp [ExprKind.unspanned, ExprKind.parts, unspanned, Function.comp_def]

theorem stmtParts_unspanned (kind : StmtKind) :
    kind.unspanned.parts = kind.parts.map unspanned := by
  cases kind with
  | ifElse cond yes no => cases no <;> simp [StmtKind.unspanned, StmtKind.parts, unspanned]
  | forLoop init cond update body =>
    cases cond <;> simp [StmtKind.unspanned, StmtKind.parts, unspanned, Function.comp_def]
  | returns value => cases value <;> simp [StmtKind.unspanned, StmtKind.parts, unspanned]
  | tryCatch resources body catches finalizer =>
    cases finalizer <;> simp [StmtKind.unspanned, StmtKind.parts, unspanned, Function.comp_def]
  | assertion cond message => cases message <;> simp [StmtKind.unspanned, StmtKind.parts, unspanned]
  | _ => simp [StmtKind.unspanned, StmtKind.parts, unspanned, Function.comp_def]

theorem parts_unspanned (p : Phrase) : p.unspanned.parts = p.parts.map unspanned := by
  cases p with
  | expr e =>
    obtain ⟨kind, span⟩ := e
    simpa [unspanned, Expr.unspanned, parts] using exprParts_unspanned kind
  | stmtKind k => exact stmtParts_unspanned k
  | typeKind k =>
    cases k with
    | wildcard bound => cases bound <;> simp [unspanned, TypeKind.unspanned, parts]
    | _ => simp [unspanned, TypeKind.unspanned, parts]
  | segment s => obtain ⟨name, _ | args⟩ := s <;> simp [unspanned, TypeSegment.unspanned, parts]
  | lambdaParam p =>
    obtain ⟨_ | type, name⟩ := p <;> simp [unspanned, LambdaParam.unspanned, parts]
  | declarator d =>
    obtain ⟨name, dims, _ | init⟩ := d <;> simp [unspanned, Declarator.unspanned, parts]
  | enumConstant k =>
    obtain ⟨name, args, _ | body⟩ := k <;>
      simp [unspanned, EnumConstant.unspanned, parts, Function.comp_def]
  | methodDecl m =>
    obtain ⟨ms, typeParams, _ | returnType, name, params, exceptions, _ | body, span⟩ := m <;>
      simp [unspanned, MethodDecl.unspanned, parts, Function.comp_def]
  | member m => cases m <;> simp [unspanned, Member.unspanned, parts, Member.parts]
  | item i => cases i <;> simp [unspanned, Item.unspanned, parts, Item.parts]
  | lambdaBody b => cases b <;> simp [unspanned, LambdaBody.unspanned, parts]
  | modifier m => cases m <;> simp [unspanned, Modifier.unspanned, parts]
  | stmt x | inHead x | type x | typeParam x | marker x | param x | varDecl x | typeDecl x
    | block x | catchClause x | switchCase x =>
    cases x
    simp [unspanned, parts, Stmt.unspanned, TypeRef.unspanned, TypeParam.unspanned,
      Annotation.unspanned, Param.unspanned, VarDecl.unspanned, TypeDecl.unspanned,
      Block.unspanned, CatchClause.unspanned, SwitchCase.unspanned, Function.comp_def]
  | _ => rfl

end Phrase

end SketchPrep
