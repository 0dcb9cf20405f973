import SketchPrep.Token.Basic

/-!
Syntax trees of sketches: Java with statements and methods at the top level, the type name `color`
and colour literals. Every construct that preprocessing reacts to has a constructor of its own.
-/

namespace SketchPrep

structure Ident where
  name : String
  span : Span
  deriving DecidableEq, Repr

mutual

structure TypeRef where
  kind : TypeKind
  dims : Nat
  span : Span

/-- `primitive` covers `void` and `color`; a wildcard has at most one bound. -/
inductive TypeKind where
  | primitive (name : Ident)
  | named (segments : List TypeSegment)
  | wildcard (bound : Option TypeRef)

/-- `args` is `none` without type arguments and empty for the diamond `<>`. -/
structure TypeSegment where
  name : Ident
  args : Option (List TypeRef)

end

structure LambdaParam where
  type : Option TypeRef
  name : Ident

structure TypeParam where
  name : Ident
  bounds : List TypeRef

/-- `name` ends in `.*` for a wildcard import; the span runs through the semicolon. -/
structure ImportDecl where
  isStatic : Bool
  name : String
  wildcard : Bool
  span : Span
  deriving DecidableEq, Repr

structure PackageDecl where
  name : String
  span : Span
  deriving DecidableEq, Repr

inductive LiteralKind where
  | int
  | float
  | hexColor
  | char
  | string
  | textBlock
  | bool
  | null
  deriving DecidableEq, Repr

inductive TypeDeclKind where
  | classType
  | interfaceType
  | enumType
  | annotationType
  deriving DecidableEq, Repr

mutual

structure Expr where
  kind : ExprKind
  span : Span

/-- A call without target has an implicit receiver. Its name may be that of a primitive type,
as in the conversion `int(x)`, and that of a constructor, as in `super(x)`. -/
inductive ExprKind where
  | literal (kind : LiteralKind) (text : String)
  | name (id : Ident)
  | thisRef
  | superRef
  | paren (inner : Expr)
  | field (target : Expr) (name : Ident)
  | call (target : Option Expr) (name : Ident) (args : List Expr)
  | index (target : Expr) (position : Expr)
  | create (type : TypeRef) (args : List Expr) (body : Option (List Member))
  | createArray (type : TypeRef) (sizes : List Expr) (extraDims : Nat) (init : Option Expr)
  | arrayInit (elements : List Expr)
  | unary (op : String) (operand : Expr) (trailing : Bool)
  | binary (op : String) (lhs : Expr) (rhs : Expr)
  | assign (op : String) (lhs : Expr) (rhs : Expr)
  | conditional (cond : Expr) (yes : Expr) (no : Expr)
  | cast (type : TypeRef) (operand : Expr)
  | instanceOf (operand : Expr) (type : TypeRef)
  | lambda (params : List LambdaParam) (body : LambdaBody)
  | methodRef (target : Expr) (name : Ident)
  | classLiteral (type : TypeRef)

inductive LambdaBody where
  | expr (e : Expr)
  | block (b : Block)

structure Annotation where
  name : String
  args : List Expr
  span : Span

inductive Modifier where
  | marker (a : Annotation)
  | keyword (word : Ident)

structure Param where
  modifiers : List Modifier
  type : TypeRef
  varargs : Bool
  name : Ident
  dims : Nat

structure Declarator where
  name : Ident
  dims : Nat
  init : Option Expr

/-- A field or a local variable. -/
structure VarDecl where
  modifiers : List Modifier
  type : TypeRef
  declarators : List Declarator
  span : Span

structure Block where
  stmts : List Stmt
  span : Span

/-- The span covers the closing semicolon where there is one. -/
structure Stmt where
  kind : StmtKind
  span : Span

inductive StmtKind where
  | block (b : Block)
  | localVar (decl : VarDecl)
  | localType (decl : TypeDecl)
  | expr (e : Expr)
  | ifElse (cond : Expr) (yes : Stmt) (no : Option Stmt)
  | whileDo (cond : Expr) (body : Stmt)
  | doWhile (body : Stmt) (cond : Expr)
  | forLoop (init : List Stmt) (cond : Option Expr) (update : List Expr) (body : Stmt)
  | forEach (loopVar : Param) (iterable : Expr) (body : Stmt)
  | returns (value : Option Expr)
  | breaks (label : Option Ident)
  | continues (label : Option Ident)
  | throws (value : Expr)
  | tryCatch (resources : List Stmt) (body : Block) (catches : List CatchClause)
      (finalizer : Option Block)
  | switch (selector : Expr) (cases : List SwitchCase)
  | synchronized (lock : Expr) (body : Block)
  | labeled (label : Ident) (body : Stmt)
  | assertion (cond : Expr) (message : Option Expr)
  | empty

structure CatchClause where
  modifiers : List Modifier
  types : List TypeRef
  name : Ident
  body : Block

/-- A case without labels is the default. -/
structure SwitchCase where
  labels : List Expr
  body : List Stmt
  arrow : Bool

/-- A constructor has no return type. -/
structure MethodDecl where
  modifiers : List Modifier
  typeParams : List TypeParam
  returnType : Option TypeRef
  name : Ident
  params : List Param
  exceptions : List TypeRef
  body : Option Block
  span : Span

structure EnumConstant where
  name : Ident
  args : List Expr
  body : Option (List Member)

structure TypeDecl where
  modifiers : List Modifier
  kind : TypeDeclKind
  name : Ident
  typeParams : List TypeParam
  superTypes : List TypeRef
  interfaces : List TypeRef
  constants : List EnumConstant
  members : List Member
  span : Span

/-- An import has no place in a class; it is read there so that it can be reported. -/
inductive Member where
  | field (decl : VarDecl)
  | method (decl : MethodDecl)
  | constructor (decl : MethodDecl)
  | type (decl : TypeDecl)
  | initializer (isStatic : Bool) (body : Block)
  | importation (decl : ImportDecl)
  | empty (span : Span)

end

inductive Item where
  | importation (decl : ImportDecl)
  | type (decl : TypeDecl)
  | method (decl : MethodDecl)
  | stmt (s : Stmt)

structure Sketch where
  package : Option PackageDecl
  items : List Item
  span : Span

namespace TypeRef

def isVoid (t : TypeRef) : Bool :=
  match t.kind with
  | .primitive id => id.name = "void" && t.dims = 0
  | _ => false

/-- The last name of a named type. -/
def simpleName? (t : TypeRef) : Option String :=
  match t.kind with
  | .named segments => segments.getLast?.map (·.name.name)
  | _ => none

end TypeRef

namespace Modifier

def span : Modifier → Span
  | .marker a => a.span
  | .keyword word => word.span

def isKeyword (word : String) : Modifier → Bool
  | .keyword id => id.name = word
  | .marker _ => false

def marker? : Modifier → Option Annotation
  | .marker a => some a
  | .keyword _ => none

/-- Whether a list of modifiers tells who can see the declaration. -/
def setVisibility (ms : List Modifier) : Bool :=
  ms.any fun m => m.isKeyword "public" || m.isKeyword "private" || m.isKeyword "protected"

def lastMarker? (ms : List Modifier) : Option Annotation :=
  (ms.filterMap marker?).getLast?

/-- From the first modifier to the last. -/
def spanOf? (ms : List Modifier) : Option Span :=
  match ms.head?, ms.getLast? with
  | some a, some b => some (a.span.upTo b.span)
  | _, _ => none

end Modifier

/-- The class is the sketch itself: the name of its superclass ends in `PApplet`. -/
def TypeDecl.isSketchClass (t : TypeDecl) : Bool :=
  t.kind = .classType && (t.superTypes.head?.bind TypeRef.simpleName?).any (·.endsWith "PApplet")

def MethodDecl.returnsVoid (m : MethodDecl) : Bool := m.returnType.any TypeRef.isVoid

def Member.span : Member → Span
  | .field v => v.span
  | .method m | .constructor m => m.span
  | .type t => t.span
  | .initializer _ body => body.span
  | .importation i => i.span
  | .empty s => s

def Item.span : Item → Span
  | .importation i => i.span
  | .type t => t.span
  | .method m => m.span
  | .stmt s => s.span

end SketchPrep
