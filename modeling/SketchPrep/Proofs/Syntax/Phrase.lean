import SketchPrep.Syntax.Declaration

/-!
The grammar of sketches as a relation between trees and tokens. A rule tells the parts that a tree
is written with, one after the other, and `Spells` follows the rules down to tokens. How tightly
operators bind is left open, that is for the readers to decide. What they read and drop is a part
too.
-/

namespace SketchPrep

def Ident.ofToken (t : Token) : Ident := ⟨t.text, t.span⟩

/-- From the first token to the last. -/
def Token.spanOf? (ts : List Token) : Option Span :=
  match ts.head?, ts.getLast? with
  | some a, some b => some (a.span.upTo b.span)
  | _, _ => none

/-- What a part of a sketch is read as. `word` is a token that is spelled so, `name` an identifier
`callName` what stands for one before the arguments of a call, and `inHead` a statement without
semicolon in the parentheses of a `for` or a `try`. -/
inductive Phrase where
  | word (w : String)
  | token (t : Token)
  | name (id : Ident)
  | callName (id : Ident)
  | typeKind (k : TypeKind)
  | segment (s : TypeSegment)
  | type (t : TypeRef)
  | typeParam (p : TypeParam)
  | marker (a : Annotation)
  | modifier (m : Modifier)
  | param (p : Param)
  | lambdaParam (p : LambdaParam)
  | lambdaBody (b : LambdaBody)
  | expr (e : Expr)
  | declarator (d : Declarator)
  | varDecl (d : VarDecl)
  | enumConstant (c : EnumConstant)
  | typeDecl (d : TypeDecl)
  | block (b : Block)
  | catchClause (c : CatchClause)
  | switchCase (c : SwitchCase)
  | stmtKind (k : StmtKind)
  | stmt (s : Stmt)
  | inHead (s : Stmt)
  | methodDecl (d : MethodDecl)
  | member (m : Member)
  | packageDecl (d : PackageDecl)
  | importDecl (d : ImportDecl)
  | item (i : Item)

namespace Phrase

/-- The span that the tree has for itself. -/
def span? : Phrase → Option Span
  | .token t => some t.span
  | .name id | .callName id => some id.span
  | .type t => some t.span
  | .marker a => some a.span
  | .modifier m => some m.span
  | .expr e => some e.span
  | .varDecl d => some d.span
  | .typeDecl d => some d.span
  | .block b => some b.span
  | .stmt s | .inHead s => some s.span
  | .methodDecl d => some d.span
  | .packageDecl d => some d.span
  | .importDecl d => some d.span
  | .member (.empty s) => some s
  | .item i => some i.span
  | _ => none

/-! ### Lists of phrases -/

def separated (sep : String) : List Phrase → List Phrase
  | [] => []
  | p :: ps => p :: ps.flatMap fun q => [.word sep, q]

/-- The word, if it is there. -/
def perhaps (isThere : Bool) (w : String) : List Phrase := if isThere then [.word w] else []

def brackets (n : Nat) : List Phrase := (List.replicate n [.word "[", .word "]"]).flatten

/-- Phrases in parentheses, with commas between them. -/
def parens (ps : List Phrase) : List Phrase := .word "(" :: separated "," ps ++ [.word ")"]

def qualified (ids : List Ident) : List Phrase := separated "." (ids.map .name)

def types (sep : String) (ts : List TypeRef) : List Phrase := separated sep (ts.map .type)

def typeParams : List TypeParam → List Phrase
  | [] => []
  | p :: ps => .word "<" :: separated "," ((p :: ps).map .typeParam) ++ [.word ">"]

/-- The types after a word, or nothing if there are none. -/
def clause (w : String) : List TypeRef → List Phrase
  | [] => []
  | t :: ts => .word w :: types "," (t :: ts)

def modifiers (ms : List Modifier) : List Phrase := ms.map .modifier

/-- A parameter of a method, or one with a type of a lambda. -/
def paramParts (p : Param) : List Phrase :=
  modifiers p.modifiers ++ .type p.type :: perhaps p.varargs "..." ++ .name p.name ::
    brackets p.dims

def arguments (es : List Expr) : List Phrase := parens (es.map .expr)

def classBody : Option (List Member) → List Phrase
  | none => []
  | some ms => .word "\x7b" :: ms.map .member ++ [.word "\x7d"]

/-- An expression after a word, or nothing. -/
def exprAfter (w : String) : Option Expr → List Phrase
  | none => []
  | some e => [.word w, .expr e]

def exprOrNothing (e : Option Expr) : List Phrase := e.toList.map .expr

/-- What follows the resources of a `try` statement. -/
def tryBlocks (body : Block) (catches : List CatchClause) : Option Block → List Phrase
  | none => .block body :: catches.map .catchClause
  | some b => .block body :: catches.map .catchClause ++ [.word "finally", .block b]

def kindWords : TypeDeclKind → List Phrase
  | .classType => [.word "class"]
  | .interfaceType => [.word "interface"]
  | .enumType => [.word "enum"]
  | .annotationType => [.word "@", .word "interface"]

/-! ### What rules are made of -/

/-- Trees count, and of the words those that are looked for. -/
def counts (look : String → Bool) : Phrase → Bool
  | .word w => look w
  | _ => true

@[simp] theorem counts_word (look : String → Bool) (w : String) :
    (Phrase.word w).counts look = look w := rfl

@[simp] theorem counts_tree (look : String → Bool) {p : Phrase} (h : ∀ w, p ≠ .word w) :
    p.counts look := by
  unfold counts
  split
  · exact absurd rfl (h _)
  · rfl

/-- The phrases that count. -/
def sift (look : String → Bool) (ps : List Phrase) : List Phrase := ps.filter (counts look)

/-- The phrases without the words. -/
abbrev trees : List Phrase → List Phrase := sift fun _ => false

theorem mem_of_mem_trees {p : Phrase} {ps : List Phrase} (h : p ∈ trees ps) : p ∈ ps :=
  (List.mem_filter.1 h).1

section Sift

variable {look : String → Bool}

theorem mem_sift {p : Phrase} {ps : List Phrase} (h : p ∈ ps) (hp : p.counts look) :
    p ∈ sift look ps :=
  List.mem_filter.2 ⟨h, hp⟩

@[simp] theorem sift_nil : sift look [] = [] := rfl

@[simp] theorem sift_cons (p : Phrase) (ps : List Phrase) :
    sift look (p :: ps) = if p.counts look then p :: sift look ps else sift look ps :=
  List.filter_cons

@[simp] theorem sift_append (ps qs : List Phrase) :
    sift look (ps ++ qs) = sift look ps ++ sift look qs :=
  List.filter_append ..

@[simp] theorem sift_map {α : Type} {f : α → Phrase} (h : ∀ a, (f a).counts look) (as : List α) :
    sift look (as.map f) = as.map f :=
  List.filter_eq_self.2 (List.forall_mem_map.2 fun a _ => h a)

/-- What finds nothing in words finds all that it finds in the trees. -/
theorem flatMap_trees {α : Type} {f : Phrase → List α} (h : ∀ w, f (.word w) = [])
    (ps : List Phrase) : (trees ps).flatMap f = ps.flatMap f := by
  induction ps with
  | nil => rfl
  | cons p ps ih =>
    cases p with
    | word w => simpa [h] using ih
    | _ => simp [ih]

@[simp] theorem sift_separated {sep : String} (h : look sep = false) (ps : List Phrase) :
    sift look (separated sep ps) = sift look ps := by
  have behind (qs : List Phrase) :
      sift look (qs.flatMap fun q => [.word sep, q]) = sift look qs := by
    induction qs with
    | nil => rfl
    | cons q qs ih => simp [h, ih]
  cases ps with
  | nil => rfl
  | cons p ps => rw [separated, sift_cons, behind, sift_cons]

@[simp] theorem sift_perhaps {w : String} (h : look w = false) (isThere : Bool) :
    sift look (perhaps isThere w) = [] := by
  cases isThere <;> simp [perhaps, h]

@[simp] theorem sift_brackets (h : look "[" = false) (h' : look "]" = false) (n : Nat) :
    sift look (brackets n) = [] := by
  induction n with
  | zero => rfl
  | succ n ih => simpa [brackets, List.replicate_succ, h, h'] using ih

@[simp] theorem sift_sizes (h : look "[" = false) (h' : look "]" = false) (es : List Expr) :
    sift look (es.flatMap fun e => [.word "[", .expr e, .word "]"]) = es.map .expr := by
  induction es with
  | nil => rfl
  | cons e es ih => simp [h, h', ih]

@[simp] theorem sift_parens (left : look "(" = false) (h : look "," = false)
    (right : look ")" = false) (ps : List Phrase) : sift look (parens ps) = sift look ps := by
  simp [parens, left, h, right]

@[simp] theorem sift_types {sep : String} (h : look sep = false) (ts : List TypeRef) :
    sift look (types sep ts) = ts.map .type := by
  simp [types, h]

@[simp] theorem sift_qualified (h : look "." = false) (ids : List Ident) :
    sift look (qualified ids) = ids.map .name := by
  simp [qualified, h]

@[simp] theorem sift_modifiers (ms : List Modifier) :
    sift look (modifiers ms) = ms.map .modifier := by
  simp [modifiers]

@[simp] theorem sift_paramParts (dots : look "..." = false) (h : look "[" = false)
    (h' : look "]" = false) (p : Param) :
    sift look (paramParts p) = p.modifiers.map .modifier ++ [.type p.type, .name p.name] := by
  simp [paramParts, dots, h, h']

@[simp] theorem sift_arguments (left : look "(" = false) (h : look "," = false)
    (right : look ")" = false) (es : List Expr) : sift look (arguments es) = es.map .expr := by
  simp [arguments, left, h, right]

@[simp] theorem sift_typeParams (left : look "<" = false) (h : look "," = false)
    (right : look ">" = false) (ps : List TypeParam) :
    sift look (typeParams ps) = ps.map .typeParam := by
  cases ps <;> simp [typeParams, left, h, right]

@[simp] theorem sift_clause {w : String} (h : look w = false) (h' : look "," = false)
    (ts : List TypeRef) : sift look (clause w ts) = ts.map .type := by
  cases ts <;> simp [clause, h, h']

@[simp] theorem sift_kindWords (h : ∀ w ∈ ["class", "interface", "enum", "@"], look w = false)
    (kind : TypeDeclKind) : sift look (kindWords kind) = [] := by
  cases kind <;> simp_all [kindWords]

@[simp] theorem sift_classBody (left : look "\x7b" = false) (right : look "\x7d" = false)
    (body : Option (List Member)) : sift look (classBody body) = (body.getD []).map .member := by
  cases body <;> simp [classBody, left, right]

@[simp] theorem sift_exprAfter {w : String} (h : look w = false) (e : Option Expr) :
    sift look (exprAfter w e) = e.toList.map .expr := by
  cases e <;> simp [exprAfter, h]

@[simp] theorem sift_exprOrNothing (e : Option Expr) :
    sift look (exprOrNothing e) = e.toList.map .expr := by
  simp [exprOrNothing]

@[simp] theorem sift_tryBlocks (h : look "finally" = false) (body : Block)
    (catches : List CatchClause) (finalizer : Option Block) :
    sift look (tryBlocks body catches finalizer) =
      .block body :: catches.map .catchClause ++ finalizer.toList.map .block := by
  cases finalizer <;> simp [tryBlocks, h]

end Sift

/-- What names a call or a field after a point. -/
def isSelected (t : Token) : Bool :=
  t.kind = .identifier || ["class", "this", "super", "new"].any t.is

/-- What names a call without target. -/
def isCallName (t : Token) : Bool :=
  t.kind = .identifier || ["this", "super"].any t.is || Syntax.conversions.any t.is

/-- What operators are written with. -/
def isOperatorSign (t : Token) : Bool :=
  ["||", "&&", "|", "^", "&", "==", "!=", "<", ">", "<=", ">=", "<<", ">>", ">>>", "+", "-", "*",
    "/", "%", "=", "+=", "-=", "*=", "/=", "%=", "&=", "|=", "^=", "<<=", ">>=", ">>>="].any t.is

def literalKind? (t : Token) : Option LiteralKind :=
  match t.kind with
  | .intLiteral => some .int
  | .floatLiteral => some .float
  | .hexColor => some .hexColor
  | .charLiteral => some .char
  | .stringLiteral => some .string
  | .textBlock => some .textBlock
  | .keyword =>
    if t.text = "true" || t.text = "false" then some .bool
    else if t.text = "null" then some .null
    else none
  | _ => none

/-- The parts of a phrase. The spans of the trees are left open here, `Spells` fixes them. -/
inductive Production : Phrase → List Phrase → Prop
  -- names and types
  | name {t : Token} (h : t.kind = .identifier) : Production (.name (.ofToken t)) [.token t]
  | callName {t : Token} (h : isCallName t) : Production (.callName (.ofToken t)) [.token t]
  | primitive {t : Token} (h : t.isPrimitiveType || t.is "void") :
    Production (.typeKind (.primitive (.ofToken t))) [.token t]
  | named {segments : List TypeSegment} (h : segments ≠ []) :
    Production (.typeKind (.named segments)) (separated "." (segments.map .segment))
  | anyType : Production (.typeKind (.wildcard none)) [.word "?"]
  | boundedType {w : String} {bound : TypeRef} (h : w = "extends" ∨ w = "super") :
    Production (.typeKind (.wildcard (some bound))) [.word "?", .word w, .type bound]
  | segment {id : Ident} : Production (.segment ⟨id, none⟩) [.name id]
  | segmentWithArgs {id : Ident} {args : List TypeRef} :
    Production (.segment ⟨id, some args⟩) (.name id :: .word "<" :: types "," args ++ [.word ">"])
  | type {kind : TypeKind} {dims : Nat} {span : Span} :
    Production (.type ⟨kind, dims, span⟩) (.typeKind kind :: brackets dims)
  | typeParam {id : Ident} {bounds : List TypeRef} :
    Production (.typeParam ⟨id, bounds⟩) (.name id ::
      match bounds with
      | [] => []
      | b :: bs => .word "extends" :: types "&" (b :: bs))
  -- modifiers and parameters
  | marker {ids : List Ident} {span : Span} (h : ids ≠ []) :
    Production (.marker ⟨".".intercalate (ids.map Ident.name), [], span⟩)
      (.word "@" :: qualified ids)
  | markerWithArgs {ids : List Ident} {args : List Expr} {span : Span} (h : ids ≠ []) :
    Production (.marker ⟨".".intercalate (ids.map Ident.name), args, span⟩)
      (.word "@" :: qualified ids ++ arguments args)
  | markerModifier {a : Annotation} : Production (.modifier (.marker a)) [.marker a]
  | keywordModifier {t : Token} (h : t.kind = .keyword)
    (listed : t.text ∈ "synchronized" :: "default" :: Syntax.modifierKeywords) :
    Production (.modifier (.keyword (.ofToken t))) [.token t]
  | param {p : Param} : Production (.param p) (paramParts p)
  -- expressions
  | literal {t : Token} {kind : LiteralKind} {span : Span} (h : literalKind? t = some kind) :
    Production (.expr ⟨.literal kind t.text, span⟩) [.token t]
  | variable {id : Ident} {span : Span} : Production (.expr ⟨.name id, span⟩) [.name id]
  | thisRef {span : Span} : Production (.expr ⟨.thisRef, span⟩) [.word "this"]
  | superRef {span : Span} : Production (.expr ⟨.superRef, span⟩) [.word "super"]
  | paren {e : Expr} {span : Span} :
    Production (.expr ⟨.paren e, span⟩) [.word "(", .expr e, .word ")"]
  | call {name : Ident} {args : List Expr} {span : Span} :
    Production (.expr ⟨.call none name args, span⟩) (.callName name :: arguments args)
  | callOf {target : Expr} {dropped : List TypeParam} {t : Token} {args : List Expr} {span : Span}
    (h : isSelected t) : Production (.expr ⟨.call (some target) (.ofToken t) args, span⟩)
      (.expr target :: .word "." :: typeParams dropped ++ .token t :: arguments args)
  | field {target : Expr} {dropped : List TypeParam} {t : Token} {span : Span}
    (h : isSelected t) : Production (.expr ⟨.field target (.ofToken t), span⟩)
      (.expr target :: .word "." :: typeParams dropped ++ [.token t])
  | index {target position : Expr} {span : Span} :
    Production (.expr ⟨.index target position, span⟩)
      [.expr target, .word "[", .expr position, .word "]"]
  | methodRef {target : Expr} {t : Token} {span : Span} (h : t.kind = .identifier ∨ t.is "new") :
    Production (.expr ⟨.methodRef target (.ofToken t), span⟩) [.expr target, .word "::", .token t]
  | classLiteral {type : TypeRef} {span : Span} :
    Production (.expr ⟨.classLiteral type, span⟩) [.type type, .word ".", .word "class"]
  | create {type : TypeRef} {args : List Expr} {body : Option (List Member)} {span : Span} :
    Production (.expr ⟨.create type args body, span⟩)
      (.word "new" :: .type type :: arguments args ++ classBody body)
  | createArray {type : TypeRef} {sizes : List Expr} {dims : Nat} {init : Option Expr}
      {span : Span} (h : ∀ e ∈ init, ∃ elements, e.kind = .arrayInit elements) :
    Production (.expr ⟨.createArray type sizes dims init, span⟩)
      (.word "new" :: .type type ::
        (sizes.flatMap fun e => [.word "[", .expr e, .word "]"]) ++ brackets dims ++
          exprOrNothing init)
  | arrayInit {elements : List Expr} {comma : Bool} {span : Span} :
    Production (.expr ⟨.arrayInit elements, span⟩)
      (.word "\x7b" :: separated "," (elements.map .expr) ++ perhaps comma "," ++ [.word "\x7d"])
  | prefixed {op : String} {e : Expr} {span : Span} (h : op ∈ Syntax.unaryOperators) :
    Production (.expr ⟨.unary op e false, span⟩) [.word op, .expr e]
  | trailed {op : String} {e : Expr} {span : Span} (h : op = "++" ∨ op = "--") :
    Production (.expr ⟨.unary op e true, span⟩) [.expr e, .word op]
  | cast {type : TypeRef} {e : Expr} {span : Span} :
    Production (.expr ⟨.cast type e, span⟩) [.word "(", .type type, .word ")", .expr e]
  | binary {signs : List Token} {lhs rhs : Expr} {span : Span}
    (h : (Syntax.precedence? (String.join (signs.map Token.text))).isSome)
    (hsigns : ∀ t ∈ signs, isOperatorSign t) :
    Production (.expr ⟨.binary (String.join (signs.map Token.text)) lhs rhs, span⟩)
      (.expr lhs :: signs.map .token ++ [.expr rhs])
  | assign {signs : List Token} {lhs rhs : Expr} {span : Span}
    (h : String.join (signs.map Token.text) ∈ Syntax.assignOperators)
    (hsigns : ∀ t ∈ signs, isOperatorSign t) :
    Production (.expr ⟨.assign (String.join (signs.map Token.text)) lhs rhs, span⟩)
      (.expr lhs :: signs.map .token ++ [.expr rhs])
  | instanceOf {e : Expr} {isFinal : Bool} {type : TypeRef} {dropped : Option Ident}
      {span : Span} :
    Production (.expr ⟨.instanceOf e type, span⟩)
      (.expr e :: .word "instanceof" :: perhaps isFinal "final" ++
        .type type :: dropped.toList.map .name)
  | conditional {cond yes no : Expr} {span : Span} :
    Production (.expr ⟨.conditional cond yes no, span⟩)
      [.expr cond, .word "?", .expr yes, .word ":", .expr no]
  | plainLambda {id : Ident} {body : LambdaBody} {span : Span} :
    Production (.expr ⟨.lambda [⟨none, id⟩] body, span⟩) [.name id, .word "->", .lambdaBody body]
  | lambda {params : List LambdaParam} {comma : Bool} {body : LambdaBody} {span : Span} :
    Production (.expr ⟨.lambda params body, span⟩)
      (.word "(" :: separated "," (params.map .lambdaParam) ++ perhaps comma "," ++
        [.word ")", .word "->", .lambdaBody body])
  | lambdaName {id : Ident} : Production (.lambdaParam ⟨none, id⟩) [.name id]
  | lambdaParam {p : Param} : Production (.lambdaParam ⟨some p.type, p.name⟩) (paramParts p)
  | lambdaExpr {e : Expr} : Production (.lambdaBody (.expr e)) [.expr e]
  | lambdaBlock {b : Block} : Production (.lambdaBody (.block b)) [.block b]
  -- variables and classes
  | declarator {id : Ident} {dims : Nat} {init : Option Expr} :
    Production (.declarator ⟨id, dims, init⟩) (.name id :: brackets dims ++ exprAfter "=" init)
  | varDecl {ms : List Modifier} {dropped : List TypeParam} {type : TypeRef}
      {ds : List Declarator} {span : Span} :
    Production (.varDecl ⟨ms, type, ds, span⟩)
      (modifiers ms ++ typeParams dropped ++ .type type :: separated "," (ds.map .declarator) ++
        [.word ";"])
  | enumConstant {id : Ident} {body : Option (List Member)} :
    Production (.enumConstant ⟨id, [], body⟩) (.name id :: classBody body)
  | enumConstantWithArgs {id : Ident} {args : List Expr} {body : Option (List Member)} :
    Production (.enumConstant ⟨id, args, body⟩) (.name id :: arguments args ++ classBody body)
  | typeDecl {ms : List Modifier} {kind : TypeDeclKind} {id : Ident} {params : List TypeParam}
      {superTypes interfaces : List TypeRef} {constants : List EnumConstant}
      {comma semicolon : Bool} {members : List Member} {span : Span}
      (h : kind = .enumType ∨ constants = [] ∧ comma = false) :
    Production (.typeDecl ⟨ms, kind, id, params, superTypes, interfaces, constants, members, span⟩)
      (modifiers ms ++ kindWords kind ++ .name id :: typeParams params ++
        clause "extends" superTypes ++ clause "implements" interfaces ++ .word "\x7b" ::
        separated "," (constants.map .enumConstant) ++ perhaps comma "," ++
        perhaps semicolon ";" ++ members.map .member ++ [.word "\x7d"])
  -- statements
  | block {stmts : List Stmt} {span : Span} :
    Production (.block ⟨stmts, span⟩) (.word "\x7b" :: stmts.map .stmt ++ [.word "\x7d"])
  | stmt {kind : StmtKind} {span : Span} : Production (.stmt ⟨kind, span⟩) [.stmtKind kind]
  | bareExpr {e : Expr} {span : Span} : Production (.inHead ⟨.expr e, span⟩) [.expr e]
  | localVar {d : VarDecl} {span : Span} : Production (.stmt ⟨.localVar d, span⟩) [.varDecl d]
  | localType {d : TypeDecl} {span : Span} : Production (.stmt ⟨.localType d, span⟩) [.typeDecl d]
  | resource {ms : List Modifier} {type : TypeRef} {id : Ident} {e : Expr} {span : Span} :
    Production (.inHead ⟨.localVar ⟨ms, type, [⟨id, 0, some e⟩], span⟩, span⟩)
      (modifiers ms ++ [.type type, .name id, .word "=", .expr e])
  | blockStmt {b : Block} : Production (.stmtKind (.block b)) [.block b]
  | empty : Production (.stmtKind .empty) [.word ";"]
  | exprStmt {e : Expr} : Production (.stmtKind (.expr e)) [.expr e, .word ";"]
  | labeled {id : Ident} {body : Stmt} :
    Production (.stmtKind (.labeled id body)) [.name id, .word ":", .stmt body]
  | ifElse {cond : Expr} {yes : Stmt} {no : Option Stmt} :
    Production (.stmtKind (.ifElse cond yes no))
      (.word "if" :: .word "(" :: .expr cond :: .word ")" :: .stmt yes ::
        match no with
        | none => []
        | some no => [.word "else", .stmt no])
  | whileDo {cond : Expr} {body : Stmt} :
    Production (.stmtKind (.whileDo cond body))
      [.word "while", .word "(", .expr cond, .word ")", .stmt body]
  | doWhile {body : Stmt} {cond : Expr} :
    Production (.stmtKind (.doWhile body cond))
      [.word "do", .stmt body, .word "while", .word "(", .expr cond, .word ")", .word ";"]
  | forLoop {init : List Stmt} {cond : Option Expr} {update : List Expr} {body : Stmt} :
    Production (.stmtKind (.forLoop init cond update body))
      (.word "for" :: .word "(" :: separated "," (init.map .inHead) ++ .word ";" ::
        exprOrNothing cond ++ .word ";" :: separated "," (update.map .expr) ++
          [.word ")", .stmt body])
  | forVariable {d : VarDecl} {cond : Option Expr} {update : List Expr} {body : Stmt} :
    Production (.stmtKind (.forLoop [⟨.localVar d, d.span⟩] cond update body))
      (.word "for" :: .word "(" :: .varDecl d :: exprOrNothing cond ++ .word ";" ::
        separated "," (update.map .expr) ++ [.word ")", .stmt body])
  | forEach {ms : List Modifier} {type : TypeRef} {id : Ident} {iterable : Expr} {body : Stmt} :
    Production (.stmtKind (.forEach ⟨ms, type, false, id, 0⟩ iterable body))
      (.word "for" :: .word "(" :: modifiers ms ++
        [.type type, .name id, .word ":", .expr iterable, .word ")", .stmt body])
  | returns {e : Option Expr} :
    Production (.stmtKind (.returns e)) (.word "return" :: exprOrNothing e ++ [.word ";"])
  | breaks {label : Option Ident} :
    Production (.stmtKind (.breaks label)) (.word "break" :: label.toList.map .name ++ [.word ";"])
  | continues {label : Option Ident} :
    Production (.stmtKind (.continues label))
      (.word "continue" :: label.toList.map .name ++ [.word ";"])
  | throws {e : Expr} : Production (.stmtKind (.throws e)) [.word "throw", .expr e, .word ";"]
  | tryCatch {body : Block} {catches : List CatchClause} {finalizer : Option Block} :
    Production (.stmtKind (.tryCatch [] body catches finalizer))
      (.word "try" :: tryBlocks body catches finalizer)
  | tryWith {resources : List Stmt} {semicolon : Bool} {body : Block}
      {catches : List CatchClause} {finalizer : Option Block} :
    Production (.stmtKind (.tryCatch resources body catches finalizer))
      (.word "try" :: .word "(" :: separated ";" (resources.map .inHead) ++
        perhaps semicolon ";" ++ .word ")" :: tryBlocks body catches finalizer)
  | catchClause {ms : List Modifier} {ts : List TypeRef} {id : Ident} {body : Block} :
    Production (.catchClause ⟨ms, ts, id, body⟩)
      (.word "catch" :: .word "(" :: modifiers ms ++ types "|" ts ++
        [.name id, .word ")", .block body])
  | switch {selector : Expr} {cases : List SwitchCase} :
    Production (.stmtKind (.switch selector cases))
      (.word "switch" :: .word "(" :: .expr selector :: .word ")" :: .word "\x7b" ::
        cases.map .switchCase ++ [.word "\x7d"])
  | defaultCase {body : List Stmt} {arrow : Bool} :
    Production (.switchCase ⟨[], body, arrow⟩)
      (.word "default" :: .word (if arrow then "->" else ":") :: body.map .stmt)
  | switchCase {labels : List Expr} {body : List Stmt} {arrow : Bool} :
    Production (.switchCase ⟨labels, body, arrow⟩)
      (.word "case" :: separated "," (labels.map .expr) ++
        .word (if arrow then "->" else ":") :: body.map .stmt)
  | synchronized {lock : Expr} {body : Block} :
    Production (.stmtKind (.synchronized lock body))
      [.word "synchronized", .word "(", .expr lock, .word ")", .block body]
  | assertion {cond : Expr} {message : Option Expr} :
    Production (.stmtKind (.assertion cond message))
      (.word "assert" :: .expr cond :: exprAfter ":" message ++ [.word ";"])
  -- members and items
  | method {ms : List Modifier} {params : List TypeParam} {returnType : Option TypeRef}
      {id : Ident} {ps : List Param} {dropped : Nat} {exceptions : List TypeRef} {body : Block}
      {span : Span} :
    Production (.methodDecl ⟨ms, params, returnType, id, ps, exceptions, some body, span⟩)
      (modifiers ms ++ typeParams params ++ returnType.toList.map .type ++
        .name id :: parens (ps.map .param) ++ brackets dropped ++ clause "throws" exceptions ++
        [.block body])
  | methodWithoutBody {ms : List Modifier} {params : List TypeParam}
      {returnType : Option TypeRef} {id : Ident} {ps : List Param} {dropped : Nat}
      {exceptions : List TypeRef} {default : Option Expr} {span : Span} :
    Production (.methodDecl ⟨ms, params, returnType, id, ps, exceptions, none, span⟩)
      (modifiers ms ++ typeParams params ++ returnType.toList.map .type ++
        .name id :: parens (ps.map .param) ++ brackets dropped ++ clause "throws" exceptions ++
        exprAfter "default" default ++ [.word ";"])
  | fieldMember {d : VarDecl} : Production (.member (.field d)) [.varDecl d]
  | methodMember {d : MethodDecl} : Production (.member (.method d)) [.methodDecl d]
  | constructor {d : MethodDecl} : Production (.member (.constructor d)) [.methodDecl d]
  | typeMember {d : TypeDecl} : Production (.member (.type d)) [.typeDecl d]
  | initializer {isStatic : Bool} {b : Block} :
    Production (.member (.initializer isStatic b)) (perhaps isStatic "static" ++ [.block b])
  | importMember {d : ImportDecl} : Production (.member (.importation d)) [.importDecl d]
  | emptyMember {span : Span} : Production (.member (.empty span)) [.word ";"]
  | packageDecl {ids : List Ident} {span : Span} (h : ids ≠ []) :
    Production (.packageDecl ⟨".".intercalate (ids.map Ident.name), span⟩)
      (.word "package" :: qualified ids ++ [.word ";"])
  | importDecl {isStatic wildcard : Bool} {ids : List Ident} {span : Span} (h : ids ≠ []) :
    Production (.importDecl ⟨isStatic,
        if wildcard then ".".intercalate (ids.map Ident.name) ++ ".*"
        else ".".intercalate (ids.map Ident.name), wildcard, span⟩)
      (.word "import" :: perhaps isStatic "static" ++ qualified ids ++
        perhaps wildcard "." ++ perhaps wildcard "*" ++ [.word ";"])
  | importItem {d : ImportDecl} : Production (.item (.importation d)) [.importDecl d]
  | typeItem {d : TypeDecl} : Production (.item (.type d)) [.typeDecl d]
  | methodItem {d : MethodDecl} : Production (.item (.method d)) [.methodDecl d]
  | stmtItem {s : Stmt} : Production (.item (.stmt s)) [.stmt s]

/-- The tokens that the phrases are written with, one phrase after the other. -/
inductive Spells : List Phrase → List Token → Prop
  | nil : Spells [] []
  | token {t : Token} {ps : List Phrase} {ts : List Token} (rest : Spells ps ts) :
    Spells (.token t :: ps) (t :: ts)
  | word {w : String} {t : Token} {ps : List Phrase} {ts : List Token} (h : t.is w)
    (rest : Spells ps ts) : Spells (.word w :: ps) (t :: ts)
  | rule {p : Phrase} {qs ps : List Phrase} {us ts : List Token} (h : Production p qs)
    (parts : Spells qs us) (span : ∀ s, p.span? = some s → Token.spanOf? us = some s)
    (rest : Spells ps ts) : Spells (p :: ps) (us ++ ts)

theorem Spells.append {ps qs : List Phrase} {ts us : List Token} (hp : Spells ps ts)
    (hq : Spells qs us) : Spells (ps ++ qs) (ts ++ us) := by
  induction hp with
  | nil => exact hq
  | token _ ih => exact .token ih
  | word h _ ih => exact .word h ih
  | rule h parts span _ _ ih =>
    rw [List.append_assoc]
    exact .rule h parts span ih

theorem Production.ne_nil {p : Phrase} {qs : List Phrase} (h : Production p qs) : qs ≠ [] := by
  cases h with
  | named h =>
    rename_i segments
    cases segments with
    | nil => exact absurd rfl h
    | cons => simp [separated]
  | _ => simp [parens, paramParts]

theorem Spells.ne_nil {ps : List Phrase} {ts : List Token} (h : Spells ps ts) (hp : ps ≠ []) :
    ts ≠ [] := by
  induction h with
  | nil => exact absurd rfl hp
  | token => simp
  | word => simp
  | rule h _ _ _ ih => simp [ih h.ne_nil]

theorem Spells.spanOf? {p : Phrase} {ts : List Token} {a : Span} (h : Spells [p] ts)
    (ha : p.span? = some a) : Token.spanOf? ts = some a := by
  cases h with
  | token rest =>
    cases rest
    cases ha
    rfl
  | word => cases ha
  | rule _ _ span rest =>
    cases rest
    rw [List.append_nil]
    exact span a ha

/-- The tokens fall into one part for each phrase, and each phrase is related to its own. -/
inductive Each (P : Phrase → List Token → Prop) : List Phrase → List Token → Prop
  | nil : Each P [] []
  | cons {p : Phrase} {ps : List Phrase} {us ts : List Token} (h : P p us) (rest : Each P ps ts) :
    Each P (p :: ps) (us ++ ts)

/-- Induction over the trees of phrases: a rule may use what holds of its parts. -/
theorem Spells.each {P : Phrase → List Token → Prop} (token : ∀ t, P (.token t) [t])
    (word : ∀ w t, t.is w → P (.word w) [t])
    (rule : ∀ p qs ts, Production p qs → Spells qs ts → Each P qs ts →
      (∀ a, p.span? = some a → Token.spanOf? ts = some a) → P p ts)
    {ps : List Phrase} {ts : List Token} (h : Spells ps ts) : Each P ps ts := by
  induction h with
  | nil => exact .nil
  | token _ ih => exact .cons (token _) ih
  | word hw _ ih => exact .cons (word _ _ hw) ih
  | rule hp parts span _ ihp ih => exact .cons (rule _ _ _ hp parts ihp span) ih

theorem Each.split {P : Phrase → List Token → Prop} {ps qs : List Phrase} {ts : List Token}
    (h : Each P (ps ++ qs) ts) : ∃ us vs, ts = us ++ vs ∧ Each P ps us ∧ Each P qs vs := by
  induction ps generalizing ts with
  | nil => exact ⟨[], ts, rfl, .nil, h⟩
  | cons p ps ih =>
    cases h with
    | cons hp rest =>
      obtain ⟨us, vs, rfl, hps, hqs⟩ := ih rest
      exact ⟨_, vs, (List.append_assoc ..).symm, .cons hp hps, hqs⟩

theorem Each.of_mem {P : Phrase → List Token → Prop} {p : Phrase} {ps : List Phrase}
    {ts : List Token} (h : Each P ps ts) (hp : p ∈ ps) : ∃ us, us.Sublist ts ∧ P p us := by
  induction h with
  | nil => cases hp
  | cons hq _ ih =>
    rcases List.mem_cons.1 hp with rfl | hp
    · exact ⟨_, List.sublist_append_left .., hq⟩
    · obtain ⟨us, hus, hpus⟩ := ih hp
      exact ⟨us, List.sublist_append_of_sublist_right hus, hpus⟩

theorem Each.single {P : Phrase → List Token → Prop} {p : Phrase} {ts : List Token}
    (h : Each P [p] ts) : P p ts := by
  cases h with
  | cons hp rest =>
    cases rest
    rwa [List.append_nil]

end Phrase

end SketchPrep
