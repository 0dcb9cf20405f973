import Mathlib.Logic.Function.Iterate
import SketchPrep.Proofs.Syntax.Alike
import SketchPrep.Syntax.Sketch

/-!
Readers that take the same nested readers do the same. Nested readers are turned to only behind a
token, so it is enough that they do the same on shorter streams. Main statements: `agree_iterate`,
what the recursion of the readers ends with has no influence on streams with fewer tokens than it
has turns; `Sketch.error_of_parse`, what holds of all errors on the way holds of that of a sketch.
-/

namespace SketchPrep

namespace Syntax

open Reader

/-- The readers of both grammars do the same on streams of fewer than `n` tokens, and all take a
token. -/
structure Grammar.Agree (P : Stream → Prop) (E : SyntaxError → Prop) (n : Nat) (g g' : Grammar) :
    Prop extends Invariant P E where
  type : ∀ {s}, P s → s.left < n → Alike P E 1 g.type g'.type s
  unary : ∀ {s}, P s → s.left < n → Alike P E 1 g.unary g'.unary s
  binary : ∀ {s} least, P s → s.left < n → Alike P E 1 (g.binary least) (g'.binary least) s
  conditional : ∀ {s}, P s → s.left < n → Alike P E 1 g.conditional g'.conditional s
  expr : ∀ {s}, P s → s.left < n → Alike P E 1 g.expr g'.expr s
  varInit : ∀ {s}, P s → s.left < n → Alike P E 1 g.varInit g'.varInit s
  block : ∀ {s}, P s → s.left < n → Alike P E 1 g.block g'.block s
  statement : ∀ {s}, P s → s.left < n → Alike P E 1 g.statement g'.statement s
  blockStatement : ∀ {s}, P s → s.left < n → Alike P E 1 g.blockStatement g'.blockStatement s
  member : ∀ {s} name, P s → s.left < n → Alike P E 1 (g.member name) (g'.member name) s

variable {P : Stream → Prop} {E : SyntaxError → Prop} {g g' : Grammar} {n k : Nat} {s : Stream}

/-! ### Readers that nest nothing -/

section

variable (inv : Invariant P E) (hs : P s)

include inv hs

theorem alike_dims : Alike P E 0 dims dims s :=
  (Alike.manyWhile (fun _ ht _ => (inv.take ht).bind fun _ _ hu _ => inv.take hu) hs).bind
    fun _ _ ht _ => .pure ht

theorem alike_qualifiedName : Alike P E 1 qualifiedName qualifiedName s :=
  (inv.identifier hs).bind fun _ _ ht _ =>
    (Alike.manyWhile (fun _ hu _ => (inv.take hu).bind fun _ _ hv _ => inv.takeIdent hv) ht).bind
      fun _ _ hu _ => .pure hu

theorem alike_takeMany (n : Nat) : Alike P E 0 (takeMany n) (takeMany n) s := by
  induction n generalizing s with
  | zero => exact .pure hs
  | succ n ih => exact (inv.take hs).bind fun _ _ ht _ => ih ht

theorem alike_literal (kind : LiteralKind) (h : ¬s.atEnd) :
    Alike P E 1 (literal kind) (literal kind) s :=
  (inv.takeSome hs h).bind fun _ _ ht _ => .pure ht

theorem alike_selectedName : Alike P E 0 selectedName selectedName s :=
  .get (.ite (fun _ => inv.takeIdent hs) fun _ => (inv.identifier hs).last)

theorem alike_methodReference (e : Expr) :
    Alike P E 0 (methodReference e) (methodReference e) s :=
  .get (.ite (fun _ => (inv.takeIdent hs).bind fun _ _ ht _ => .get (.pure ht))
    fun _ => (inv.identifier hs).last.bind fun _ _ ht _ => .get (.pure ht))

theorem alike_packageDecl? : Alike P E 0 packageDecl? packageDecl? s := by
  refine .get (.ite (fun _ => (inv.take hs).bind fun _ _ ht _ => ?_) fun _ => .pure hs)
  exact (alike_qualifiedName inv ht).last.bind fun _ _ hu _ =>
    (inv.expect hu _).last.bind fun _ _ hv _ => .get (.pure hv)

theorem alike_importDecl : Alike P E 1 importDecl importDecl s := by
  refine .get ((inv.expect hs _).bind fun _ _ ht _ => (inv.eat ht _).bind fun _ _ hu _ =>
    (inv.identifier hu).last.bind fun _ _ hv _ => ?_)
  refine (Alike.manyWhile (fun _ hw _ => ?_) hv).bind fun _ _ hw _ => (inv.eat hw _).bind
    fun _ _ hx _ => .ite (fun _ => ?_) fun _ => ?_
  · exact (inv.take hw).bind fun _ _ hx _ => (inv.identifier hx).last
  · exact (inv.expect hx _).last.bind fun _ _ hy _ => (inv.expect hy _).last.bind
      fun _ _ hz _ => .get (.pure hz)
  · exact (inv.expect hx _).last.bind fun _ _ hy _ => .get (.pure hy)

theorem alike_typeDeclKind : Alike P E 1 typeDeclKind typeDeclKind s :=
  inv.eatIte hs (fun _ ht _ => .pure ht) <| inv.eatIte hs (fun _ ht _ => .pure ht) <|
    inv.eatIte hs (fun _ ht _ => .pure ht) <| inv.eatIte hs
      (fun _ ht _ => (inv.expect ht _).last.bind fun _ _ hu _ => .pure hu) (inv.fails hs _)

theorem alike_labelUntilSemicolon? :
    Alike P E 1 labelUntilSemicolon? labelUntilSemicolon? s := by
  refine .get (.ite (fun _ => ?_) fun _ => ?_)
  · exact ((inv.takeIdent hs).map _).bind fun _ _ ht _ => (inv.expect ht _).bind
      fun _ _ hu _ => .pure hu
  · exact (Alike.pure hs).bind fun _ _ ht _ => (inv.expect ht _).bind fun _ _ hu _ => .pure hu

theorem alike_breakStatement : Alike P E 1 breakStatement breakStatement s :=
  (inv.expect hs _).bind fun _ _ ht _ => (alike_labelUntilSemicolon? inv ht).last.bind
    fun _ _ hu _ => .pure hu

theorem alike_continueStatement : Alike P E 1 continueStatement continueStatement s :=
  (inv.expect hs _).bind fun _ _ ht _ => (alike_labelUntilSemicolon? inv ht).last.bind
    fun _ _ hu _ => .pure hu

end

section Nesting

variable (hg : g.Agree P E n g') (hs : P s)

include hg hs

/-! ### Types -/

section

variable (le : s.left ≤ n)

include le

theorem alike_typeArgs : Alike P E 1 (typeArgs g) (typeArgs g') s := by
  refine (hg.expect hs _).bind fun _ _ ht _ => hg.eatIte ht (fun _ hu _ => .pure hu) ?_
  exact (hg.sepBy ht (fun _ hu _ => hg.type hu (by omega)) _).last.bind fun _ _ hu _ =>
    (hg.expect hu _).last.bind fun _ _ hv _ => .pure hv

omit hs in
theorem alike_typeSegment (name : Alike P E k takeIdent takeIdent s) :
    Alike P E k (typeSegment g) (typeSegment g') s :=
  name.bindLast fun _ _ ht _ => .get (.ite
    (fun _ => (alike_typeArgs hg ht (by omega)).last.bind fun _ _ hu _ => .pure hu)
    fun _ => .pure ht)

theorem alike_namedType (h : ¬s.atEnd) : Alike P E 1 (namedType g) (namedType g') s := by
  refine (alike_typeSegment hg le (hg.takeName hs h)).bind fun _ _ ht _ =>
    (Alike.manyWhile (fun _ hu _ => ?_) ht).bind fun _ _ hu _ => .pure hu
  exact (hg.take hu).bind fun _ _ hv _ => alike_typeSegment hg (by omega) (hg.takeIdent hv)

omit le in
theorem alike_wildcardType (lt : s.left < n) :
    Alike P E 0 (wildcardType g) (wildcardType g') s :=
  .get (.get (.ite (fun _ => (hg.take hs).bind fun _ _ ht _ =>
    (hg.type ht (by omega)).last.bind fun _ _ hu _ => .pure hu) fun _ => .pure hs))

theorem alike_typeKind : Alike P E 1 (typeKind g) (typeKind g') s := by
  refine .get (.ite (fun h => .ite (fun _ => hg.fails hs _) fun _ => ?_) fun _ => ?_)
  · have here : ¬s.atEnd := by
      rcases Bool.or_eq_true_iff.1 h with h | h
      · exact Stream.not_atEnd_of_isPrimitiveType h
      · exact Stream.not_atEnd_of_isAt h
    exact (hg.takeName hs here).bind fun _ _ ht _ => .pure ht
  · refine hg.eatIte hs (fun _ ht _ => alike_wildcardType hg ht (by omega))
      (.ite (fun h => ?_) fun _ => hg.fails hs _)
    exact alike_namedType hg hs le (Stream.not_atEnd_of_isAtKind h (by decide))

theorem alike_elementType : Alike P E 1 (elementType g) (elementType g') s :=
  .get ((alike_typeKind hg hs le).bind fun _ _ ht _ => .get (.pure ht))

theorem alike_typeRef : Alike P E 1 (typeRef g) (typeRef g') s :=
  (alike_elementType hg hs le).bind fun _ _ ht _ =>
    (alike_dims hg.toInvariant ht).bind fun _ _ hu _ => .get (.pure hu)

theorem alike_typeParam : Alike P E 1 (typeParam g) (typeParam g') s := by
  refine (hg.identifier hs).bind fun _ _ ht _ => hg.eatIte ht (fun _ hu _ => ?_) (.pure ht)
  exact (hg.sepBy hu (fun _ hv _ => alike_typeRef hg hv (by omega)) _).last.bind
    fun _ _ hv _ => .pure hv

theorem alike_typeParams : Alike P E 0 (typeParams g) (typeParams g') s := by
  refine hg.eatIte hs (fun _ ht _ => ?_) (.pure hs)
  exact (hg.sepBy ht (fun _ hu _ => alike_typeParam hg hu (by omega)) _).last.bind fun _ _ hu _ =>
    (hg.expect hu _).last.bind fun _ _ hv _ => .pure hv

theorem alike_marker : Alike P E 1 (marker g) (marker g') s := by
  refine .get ((hg.expect hs _).bind fun _ _ ht _ =>
    (alike_qualifiedName hg.toInvariant ht).last.bind fun _ _ hu _ =>
      hg.eatIte hu (fun _ hv _ => ?_) ?_)
  · exact (hg.closeList hv fun _ hw _ => hg.varInit hw (by omega)).last.bind
      fun _ _ hw _ => .get (.pure hw)
  · exact (Alike.pure hu).bind fun _ _ hv _ => .get (.pure hv)

theorem alike_modifier : Alike P E 0 (modifier g) (modifier g') s :=
  .get (.ite (fun _ => (alike_marker hg hs le).last.bind fun _ _ ht _ => .pure ht)
    fun _ => (hg.takeIdent hs).bind fun _ _ ht _ => .pure ht)

theorem alike_modifiers : Alike P E 0 (modifiers g) (modifiers g') s :=
  .manyWhile (fun _ ht _ => alike_modifier hg ht (by omega)) hs

theorem alike_param : Alike P E 1 (param g) (param g') s :=
  (alike_modifiers hg hs le).bind fun _ _ ht _ => (alike_typeRef hg ht (by omega)).bind
    fun _ _ hu _ => (hg.eat hu _).bind fun _ _ hv _ => (hg.identifier hv).last.bind
      fun _ _ hw _ => (alike_dims hg.toInvariant hw).bind fun _ _ hx _ => .pure hx

/-! ### Lambdas -/

theorem alike_lambdaParam : Alike P E 1 (lambdaParam g) (lambdaParam g') s := by
  refine .get (.ite (fun h => ?_) fun _ => (alike_param hg hs le).bind fun _ _ ht _ => .pure ht)
  have here := Stream.not_atEnd_of_isAtKind (Bool.and_eq_true_iff.1 h).1 (by decide)
  exact (hg.takeName hs here).bind fun _ _ ht _ => .pure ht

theorem alike_lambdaRest (start : Nat) (params : List LambdaParam) :
    Alike P E 1 (lambdaRest g start params) (lambdaRest g' start params) s := by
  refine (hg.expect hs _).bind fun _ _ ht _ => .get (.ite (fun _ => ?_) fun _ => ?_)
  · exact ((hg.block ht (by omega)).last.map _).bind fun _ _ hu _ => .get (.pure hu)
  · exact ((hg.expr ht (by omega)).last.map _).bind fun _ _ hu _ => .get (.pure hu)

theorem alike_lambda? : AlikeIf P E (lambda? g) (lambda? g') s := by
  refine .get (.ite (fun _ => ?_) fun _ => .ite (fun _ => ?_) fun _ => .none hs)
  · refine .bind (hg.takeIdent hs) fun _ _ ht _ => .of_alike ?_
    exact (alike_lambdaRest hg ht (by omega) _ _).bind fun _ _ hu _ => .pure hu
  · refine .bind (hg.take hs) fun _ _ ht _ => .bind (.sepEndBy hg.advance (fun _ hu _ => ?_) ht)
      fun _ _ hu _ => .bind (hg.expect hu _).last fun _ _ hv _ => .of_alike ?_
    · exact (alike_lambdaParam hg hu (by omega)).last
    · exact (alike_lambdaRest hg hv (by omega) _ _).bind fun _ _ hw _ => .pure hw

/-! ### Operands -/

theorem alike_arrayInit : Alike P E 1 (arrayInit g) (arrayInit g') s :=
  .get ((hg.expect hs _).bind fun _ _ ht _ =>
    (Alike.sepEndBy hg.advance (fun _ hu _ => (hg.varInit hu (by omega)).last) ht).bind
      fun _ _ hu _ => (hg.expect hu _).last.bind fun _ _ hv _ => .get (.pure hv))

theorem alike_arguments : Alike P E 1 (arguments g) (arguments g') s :=
  hg.parenList hs fun _ ht _ => hg.expr ht (by omega)

theorem alike_call (target : Option Expr) (name : Ident) (start : Nat) :
    Alike P E 1 (call g target name start) (call g' target name start) s :=
  (alike_arguments hg hs le).bind fun _ _ ht _ => .get (.pure ht)

end

section

variable (lt : s.left < n)

include lt

theorem alike_membersUntilClose (name : Option String) :
    Alike P E 1 (membersUntilClose g name) (membersUntilClose g' name) s :=
  (Alike.manyWhile (fun _ ht _ => (hg.member name ht (by omega)).last) hs).bind
    fun _ _ ht _ => (hg.expect ht _).bind fun _ _ hu _ => .pure hu

theorem alike_classBody? : Alike P E 0 (classBody? g) (classBody? g') s :=
  hg.eatIte hs (fun _ ht _ => (alike_membersUntilClose hg ht (by omega) _).last.bind
    fun _ _ hu _ => .pure hu) (.pure hs)

theorem alike_arraySize : Alike P E 0 (arraySize g) (arraySize g') s :=
  (hg.take hs).bind fun _ _ ht _ => (hg.expr ht (by omega)).last.bind fun _ _ hu _ =>
    (hg.expect hu _).last.bind fun _ _ hv _ => .pure hv

theorem alike_arrayRest (start : Nat) (type : TypeRef) :
    Alike P E 0 (arrayRest g start type) (arrayRest g' start type) s := by
  refine (Alike.manyWhile (fun _ ht _ => alike_arraySize hg ht (by omega)) hs).bind
    fun _ _ ht _ => (alike_dims hg.toInvariant ht).bind fun _ _ hu _ =>
      .get (.ite (fun _ => ?_) fun _ => ?_)
  · exact ((alike_arrayInit hg hu (by omega)).last.map _).bind fun _ _ hv _ => .get (.pure hv)
  · exact (Alike.pure hu).bind fun _ _ hv _ => .get (.pure hv)

end

section

variable (le : s.left ≤ n)

include le

theorem alike_creation : Alike P E 1 (creation g) (creation g') s := by
  refine .get ((hg.expect hs _).bind fun _ _ ht _ => (alike_elementType hg ht (by omega)).last.bind
    fun _ _ hu _ => .get (.ite (fun _ => alike_arrayRest hg hu (by omega) _ _) fun _ => ?_))
  exact (alike_arguments hg hu (by omega)).last.bind fun _ _ hv _ =>
    (alike_classBody? hg hv (by omega)).bind fun _ _ hw _ => .get (.pure hw)

theorem alike_nameOrCall (plain : Ident → ExprKind) (h : ¬s.atEnd) :
    Alike P E 1 (nameOrCall g plain) (nameOrCall g' plain) s :=
  (hg.takeName hs h).bind fun _ _ ht _ =>
    .get (.ite (fun _ => (alike_call hg ht (by omega) _ _ _).last) fun _ => .pure ht)

theorem alike_classLiteral : Alike P E 1 (classLiteral g) (classLiteral g') s := by
  refine .get ((alike_typeRef hg hs le).bind fun _ _ ht _ =>
    .get (.get (.ite (fun _ => ?_) fun _ => ?_)))
  · exact (alike_takeMany hg.toInvariant ht _).bind fun _ _ hu _ => .get (.pure hu)
  · exact hg.failsNoViable ht

theorem alike_keywordOperand (h : ¬s.atEnd) :
    Alike P E 1 (keywordOperand g) (keywordOperand g') s := by
  refine .get ?_
  split
  · exact alike_literal hg.toInvariant hs _ h
  · exact alike_literal hg.toInvariant hs _ h
  · exact alike_literal hg.toInvariant hs _ h
  · exact alike_nameOrCall hg hs le _ h
  · exact alike_nameOrCall hg hs le _ h
  · exact alike_creation hg hs le
  · exact .ite (fun _ => alike_nameOrCall hg hs le _ h)
      fun _ => .ite (fun _ => alike_classLiteral hg hs le) fun _ => hg.failsNoViable hs

theorem alike_parenthesized : Alike P E 1 (parenthesized g) (parenthesized g') s :=
  .get ((hg.expect hs _).bind fun _ _ ht _ => (hg.expr ht (by omega)).last.bind fun _ _ hu _ =>
    (hg.expect hu _).last.bind fun _ _ hv _ => .get (.pure hv))

theorem alike_primary : Alike P E 1 (primary g) (primary g') s := by
  refine .get ?_
  by_cases h : s.atEnd
  · have kind : s.current.kind = .endOfInput := of_decide_eq_true (Stream.current_isEnd h)
    rw [kind]
    exact hg.failsNoViable hs
  · cases s.current.kind with
    | identifier => exact alike_nameOrCall hg hs le _ h
    | keyword => exact alike_keywordOperand hg hs le h
    | punctuation =>
      exact .ite (fun _ => alike_parenthesized hg hs le) fun _ => hg.failsNoViable hs
    | endOfInput => exact hg.failsNoViable hs
    | _ => exact alike_literal hg.toInvariant hs _ h

end

/-! ### Selectors and operators -/

section

variable (lt : s.left < n)

include lt

theorem alike_selection (e : Expr) : Alike P E 0 (selection g e) (selection g' e) s := by
  -- What comes after the type parameters comes without them as well.
  have name {t : Stream} (ht : P t) (le : t.left ≤ s.left) :
      Alike P E 0 (do
        let name ← selectedName
        if (← get).isAt "(" then call g (some e) name e.span.lo
        else return ⟨.field e name, (← get).spanFrom e.span.lo⟩) (do
        let name ← selectedName
        if (← get).isAt "(" then call g' (some e) name e.span.lo
        else return ⟨.field e name, (← get).spanFrom e.span.lo⟩) t :=
    (alike_selectedName hg.toInvariant ht).bind fun _ _ hu _ => .get (.ite
      (fun _ => (alike_call hg hu (by omega) _ _ _).last) fun _ => .get (.pure hu))
  exact .get (.ite (fun _ => (alike_typeParams hg hs (by omega)).bind fun _ _ ht le => name ht le)
    fun _ => name hs (Nat.le_refl _))

theorem alike_indexing (e : Expr) : Alike P E 0 (indexing g e) (indexing g' e) s :=
  (hg.expr hs lt).last.bind fun _ _ ht _ => (hg.expect ht _).last.bind
    fun _ _ hu _ => .get (.pure hu)

theorem alike_selector (e : Expr) : AlikeIf P E (selector g e) (selector g' e) s := by
  refine .get (hg.eatIf hs (fun _ ht _ => ?_) (hg.eatIf hs (fun _ ht _ => ?_)
    (.ite (fun h => .of_alike ?_) fun _ => hg.eatIf hs (fun _ ht _ => ?_) (.none hs))))
  · exact (alike_selection hg ht (by omega) e).bind fun _ _ hu _ => .pure hu
  · exact (alike_indexing hg ht (by omega) e).bind fun _ _ hu _ => .pure hu
  · have here : ¬s.atEnd := by
      rcases Bool.or_eq_true_iff.1 h with h | h
      · exact Stream.not_atEnd_of_isAt h
      · exact Stream.not_atEnd_of_isAt h
    exact (hg.takeSome hs here).bind fun _ _ ht _ => .get (.pure ht)
  · exact (alike_methodReference hg.toInvariant ht e).bind fun _ _ hu _ => .pure hu

theorem alike_typeTest (lhs : Expr) : Alike P E 1 (typeTest g lhs) (typeTest g' lhs) s := by
  refine (hg.eat hs _).bind fun _ _ ht _ => (alike_typeRef hg ht (by omega)).bind fun _ _ hu _ =>
    .get (.ite (fun _ => ?_) fun _ => ?_)
  · exact (hg.identifier hu).last.bind fun _ _ hv _ => .get (.pure hv)
  · exact .get (.pure hu)

theorem alike_operation (least : Nat) (lhs : Expr) :
    AlikeIf P E (operation g least lhs) (operation g' least lhs) s := by
  refine .get ?_
  obtain ⟨op, n⟩ := s.operator
  simp only
  cases precedence? op with
  | none => exact .none hs
  | some p =>
    refine .ite (fun _ => .none hs) fun _ => .bind (alike_takeMany hg.toInvariant hs _)
      fun _ _ ht _ => .ite (fun _ => .of_alike ?_) fun _ => .of_alike ?_
    · exact (alike_typeTest hg ht (by omega) lhs).bind fun _ _ hu _ => .pure hu
    · exact (hg.binary _ ht (by omega)).bind fun _ _ hu _ => .pure hu

end

section

variable (le : s.left ≤ n)

include le

theorem alike_castType? : AlikeIf P E (castType? g) (castType? g') s := by
  -- A type read in vain leaves nothing behind, not even its error, so this is no `bind`.
  unfold AlikeIf castType?
  by_cases opens : s.isAt "("
  · have lt := Stream.left_advance_lt (Stream.not_atEnd_of_isAt opens)
    have type := alike_typeRef hg (hg.advance s hs) (by omega)
    rw [if_pos opens, if_pos opens, ← type.same]
    cases h : typeRef g s.advance with
    | error => exact .ok ⟨hs, Nat.le_refl _⟩
    | ok read =>
      obtain ⟨type', next⟩ := read
      obtain ⟨hnext, shorter⟩ := type.of_ok h
      have behind := next.left_advance_le
      simp only
      split
      · exact .ok ⟨hg.advance next hnext, by simp; omega⟩
      · exact .ok ⟨hs, Nat.le_refl _⟩
  · rw [if_neg opens, if_neg opens]
    exact .ok ⟨hs, Nat.le_refl _⟩

theorem alike_unary : Alike P E 1 (unary g) (unary g') s := by
  refine .get ?_
  split
  · rename_i op found
    have here := Stream.not_atEnd_of_isAt (List.find?_some found)
    exact (hg.takeSome hs here).bind fun _ _ ht _ => (hg.unary ht (by omega)).last.bind
      fun _ _ hu _ => .pure hu
  · refine .bindIf (alike_castType? hg hs le) (fun _ _ ht _ => ?_) fun _ ht _ => ?_
    · exact (hg.unary ht (by omega)).last.bind fun _ _ hu _ => .pure hu
    · exact (alike_primary hg ht (by omega)).bind fun e _ hu _ =>
        .extend (fun _ _ hv _ => alike_selector hg hv (by omega) _) hu

theorem alike_binary (least : Nat) : Alike P E 1 (binary g least) (binary g' least) s :=
  (alike_unary hg hs le).bind fun _ _ ht _ =>
    .extend (fun _ _ hu _ => alike_operation hg hu (by omega) least _) ht

theorem alike_conditional : Alike P E 1 (conditional g) (conditional g') s := by
  refine (alike_binary hg hs le 1).bind fun _ _ ht _ => hg.eatIte ht (fun _ hu _ => ?_) (.pure ht)
  refine (hg.expr hu (by omega)).last.bind fun _ _ hv _ => (hg.expect hv _).last.bind
    fun _ _ hw _ => .bindIf (alike_lambda? hg hw (by omega)) (fun _ _ hx _ => ?_) fun _ hx _ => ?_
  · exact (Alike.pure hx).bind fun _ _ hy _ => .pure hy
  · exact (hg.conditional hx (by omega)).last.bind fun _ _ hy _ => .pure hy

theorem alike_expr : Alike P E 1 (expr g) (expr g') s := by
  refine .bindIf (alike_lambda? hg hs le) (fun _ _ ht _ => .pure ht) fun _ ht _ => ?_
  refine (alike_conditional hg ht (by omega)).bind fun _ _ hu _ =>
    .get (.ite (fun _ => ?_) fun _ => .pure hu)
  exact (alike_takeMany hg.toInvariant hu _).bind fun _ _ hv _ => (hg.expr hv (by omega)).last.bind
    fun _ _ hw _ => .pure hw

theorem alike_varInit : Alike P E 1 (varInit g) (varInit g') s :=
  .get (.ite (fun _ => alike_arrayInit hg hs le) fun _ => alike_expr hg hs le)

/-! ### Declarations -/

theorem alike_declaratorRest (name : Ident) :
    Alike P E 0 (declaratorRest g name) (declaratorRest g' name) s :=
  (alike_dims hg.toInvariant hs).bind fun _ _ ht _ => hg.eatIte ht
    (fun _ hu _ => (alike_varInit hg hu (by omega)).last.bind fun _ _ hv _ => .pure hv) (.pure ht)

theorem alike_declarator : Alike P E 1 (declarator g) (declarator g') s :=
  (hg.identifier hs).bind fun _ _ ht _ => alike_declaratorRest hg ht (by omega) _

theorem alike_varDeclRest (start : Nat) (ms : List Modifier) (type : TypeRef) (name : Ident) :
    Alike P E 1 (varDeclRest g start ms type name) (varDeclRest g' start ms type name) s := by
  refine (alike_declaratorRest hg hs le _).bind fun _ _ ht _ =>
    (Alike.manyWhile (fun _ hu _ => ?_) ht).bind fun _ _ hu _ => (hg.expect hu _).bind
      fun _ _ hv _ => .get (.pure hv)
  exact (hg.take hu).bind fun _ _ hv _ => (alike_declarator hg hv (by omega)).last

theorem alike_startsLocalVar : Alike P E 0 (startsLocalVar g) (startsLocalVar g') s :=
  Alike.foresee ((alike_modifiers hg hs le).bind fun _ _ ht _ =>
    (alike_typeRef hg ht (by omega)).last.bind fun _ _ hu _ => .get (.pure hu)) hs

theorem alike_startsTypeDecl : Alike P E 0 (startsTypeDecl g) (startsTypeDecl g') s :=
  Alike.foresee ((alike_modifiers hg hs le).bind fun _ _ ht _ => .get (.pure ht)) hs

theorem alike_typeClause (word : String) :
    Alike P E 0 (typeClause g word) (typeClause g' word) s :=
  hg.eatIte hs (fun _ ht _ =>
    (hg.sepBy ht (fun _ hu _ => alike_typeRef hg hu (by omega)) _).last) (.pure hs)

theorem alike_enumConstant : Alike P E 1 (enumConstant g) (enumConstant g') s := by
  refine (hg.identifier hs).bind fun _ _ ht _ => .get (.ite (fun _ => ?_) fun _ => ?_)
  · exact (alike_arguments hg ht (by omega)).last.bind fun _ _ hu _ =>
      (alike_classBody? hg hu (by omega)).bind fun _ _ hv _ => .pure hv
  · exact (Alike.pure ht).bind fun _ _ hu _ =>
      (alike_classBody? hg hu (by omega)).bind fun _ _ hv _ => .pure hv

theorem alike_enumConstants : Alike P E 0 (enumConstants g) (enumConstants g') s :=
  (Alike.sepEndBy hg.advance (fun _ ht _ => (alike_enumConstant hg ht (by omega)).last) hs).bind
    fun _ _ ht _ => (hg.eat ht _).bind fun _ _ hu _ => .pure hu

theorem alike_typeDecl (start : Nat) (ms : List Modifier) :
    Alike P E 1 (typeDecl g start ms) (typeDecl g' start ms) s := by
  refine (alike_typeDeclKind hg.toInvariant hs).bind fun _ _ ht _ => (hg.identifier ht).last.bind
    fun _ _ hu _ => (alike_typeParams hg hu (by omega)).bind fun _ _ hv _ =>
      (alike_typeClause hg hv (by omega) _).bind fun _ _ hw _ =>
        (alike_typeClause hg hw (by omega) _).bind fun _ _ hx _ => (hg.expect hx _).last.bind
          fun _ _ hy _ => .ite (fun _ => ?_) fun _ => ?_
  · exact (alike_enumConstants hg hy (by omega)).bind fun _ _ hz _ =>
      (alike_membersUntilClose hg hz (by omega) _).last.bind fun _ _ hend _ => .get (.pure hend)
  · exact (Alike.pure hy).bind fun _ _ hz _ =>
      (alike_membersUntilClose hg hz (by omega) _).last.bind fun _ _ hend _ => .get (.pure hend)

/-! ### Statements -/

theorem alike_block : Alike P E 1 (block g) (block g') s :=
  .get ((hg.expect hs _).bind fun _ _ ht _ =>
    (Alike.manyWhile (fun _ hu _ => (hg.blockStatement hu (by omega)).last) ht).bind
      fun _ _ hu _ => (hg.expect hu _).last.bind fun _ _ hv _ => .get (.pure hv))

theorem alike_parenExpr : Alike P E 1 (parenExpr g) (parenExpr g') s :=
  (hg.expect hs _).bind fun _ _ ht _ => (hg.expr ht (by omega)).last.bind fun _ _ hu _ =>
    (hg.expect hu _).last.bind fun _ _ hv _ => .pure hv

theorem alike_expressionStatement :
    Alike P E 1 (expressionStatement g) (expressionStatement g') s :=
  (alike_expr hg hs le).bind fun _ _ ht _ => (hg.expect ht _).last.bind fun _ _ hu _ => .pure hu

theorem alike_exprUntilSemicolon? :
    Alike P E 1 (exprUntilSemicolon? g) (exprUntilSemicolon? g') s := by
  refine .get (.ite (fun _ => ?_) fun _ => ?_)
  · exact (Alike.pure hs).bind fun _ _ ht _ => (hg.expect ht _).bind fun _ _ hu _ => .pure hu
  · exact ((alike_expr hg hs le).map _).bind fun _ _ ht _ => (hg.expect ht _).last.bind
      fun _ _ hu _ => .pure hu

theorem alike_ifStatement : Alike P E 1 (ifStatement g) (ifStatement g') s := by
  refine (hg.expect hs _).bind fun _ _ ht _ => (alike_parenExpr hg ht (by omega)).last.bind
    fun _ _ hu _ => (hg.statement hu (by omega)).last.bind fun _ _ hv _ =>
      hg.eatIte hv (fun _ hw _ => ?_) ?_
  · exact ((hg.statement hw (by omega)).last.map _).bind fun _ _ hx _ => .pure hx
  · exact (Alike.pure hv).bind fun _ _ hw _ => .pure hw

theorem alike_whileStatement : Alike P E 1 (whileStatement g) (whileStatement g') s :=
  (hg.expect hs _).bind fun _ _ ht _ => (alike_parenExpr hg ht (by omega)).last.bind
    fun _ _ hu _ => (hg.statement hu (by omega)).last.bind fun _ _ hv _ => .pure hv

theorem alike_doStatement : Alike P E 1 (doStatement g) (doStatement g') s :=
  (hg.expect hs _).bind fun _ _ ht _ => (hg.statement ht (by omega)).last.bind fun _ _ hu _ =>
    (hg.expect hu _).last.bind fun _ _ hv _ => (alike_parenExpr hg hv (by omega)).last.bind
      fun _ _ hw _ => (hg.expect hw _).last.bind fun _ _ hx _ => .pure hx

theorem alike_bareExpr : Alike P E 1 (bareExpr g) (bareExpr g') s :=
  (alike_expr hg hs le).bind fun _ _ ht _ => .pure ht

theorem alike_forRest (init : List Stmt) : Alike P E 1 (forRest g init) (forRest g' init) s :=
  (alike_exprUntilSemicolon? hg hs le).bind fun _ _ ht _ =>
    (hg.closeList ht fun _ hu _ => alike_expr hg hu (by omega)).last.bind fun _ _ hu _ =>
      (hg.statement hu (by omega)).last.bind fun _ _ hv _ => .pure hv

theorem alike_forVariable : Alike P E 1 (forVariable g) (forVariable g') s := by
  refine .get ((alike_modifiers hg hs le).bind fun _ _ ht _ =>
    (alike_typeRef hg ht (by omega)).bind fun _ _ hu _ => (hg.identifier hu).last.bind
      fun _ _ hv _ => hg.eatIte hv (fun _ hw _ => ?_) ?_)
  · exact (alike_expr hg hw (by omega)).last.bind fun _ _ hx _ => (hg.expect hx _).last.bind
      fun _ _ hy _ => (hg.statement hy (by omega)).last.bind fun _ _ hz _ => .pure hz
  · exact (alike_varDeclRest hg hv (by omega) _ _ _ _).last.bind
      fun _ _ hw _ => (alike_forRest hg hw (by omega) _).last

theorem alike_forStatement : Alike P E 1 (forStatement g) (forStatement g') s := by
  refine (hg.expect hs _).bind fun _ _ ht _ => (hg.expect ht _).last.bind fun _ _ hu _ =>
    (alike_startsLocalVar hg hu (by omega)).bind fun _ _ hv _ =>
      .ite (fun _ => (alike_forVariable hg hv (by omega)).last) fun _ =>
        .get (.ite (fun _ => ?_) fun _ => ?_)
  · exact (Alike.pure hv).bind fun _ _ hw _ => (hg.expect hw _).last.bind
      fun _ _ hx _ => (alike_forRest hg hx (by omega) _).last
  · exact (hg.sepBy hv (fun _ hw _ => alike_bareExpr hg hw (by omega)) _).last.bind
      fun _ _ hw _ => (hg.expect hw _).last.bind
        fun _ _ hx _ => (alike_forRest hg hx (by omega) _).last

theorem alike_returnStatement : Alike P E 1 (returnStatement g) (returnStatement g') s :=
  (hg.expect hs _).bind fun _ _ ht _ => (alike_exprUntilSemicolon? hg ht (by omega)).last.bind
    fun _ _ hu _ => .pure hu

theorem alike_throwStatement : Alike P E 1 (throwStatement g) (throwStatement g') s :=
  (hg.expect hs _).bind fun _ _ ht _ => (alike_expr hg ht (by omega)).last.bind fun _ _ hu _ =>
    (hg.expect hu _).last.bind fun _ _ hv _ => .pure hv

theorem alike_resource : Alike P E 1 (resource g) (resource g') s := by
  refine .get ((alike_startsLocalVar hg hs le).bind fun _ _ ht _ =>
    .ite (fun _ => ?_) fun _ => alike_bareExpr hg ht (by omega))
  exact (alike_modifiers hg ht (by omega)).bind fun _ _ hu _ =>
    (alike_typeRef hg hu (by omega)).bind fun _ _ hv _ => (hg.identifier hv).last.bind
      fun _ _ hw _ => (hg.expect hw _).last.bind fun _ _ hx _ =>
        (alike_expr hg hx (by omega)).last.bind fun _ _ hy _ => .get (.pure hy)

theorem alike_resources : Alike P E 0 (resources g) (resources g') s :=
  hg.eatIte hs (fun _ ht _ =>
    (Alike.sepEndBy hg.advance (fun _ hu _ => (alike_resource hg hu (by omega)).last) ht).bind
      fun _ _ hu _ => (hg.expect hu _).last.bind fun _ _ hv _ => .pure hv) (.pure hs)

theorem alike_catchClause : Alike P E 1 (catchClause g) (catchClause g') s :=
  (hg.expect hs _).bind fun _ _ ht _ => (hg.expect ht _).last.bind fun _ _ hu _ =>
    (alike_modifiers hg hu (by omega)).bind fun _ _ hv _ =>
      (hg.sepBy hv (fun _ hw _ => alike_typeRef hg hw (by omega)) _).last.bind fun _ _ hw _ =>
        (hg.identifier hw).last.bind fun _ _ hx _ => (hg.expect hx _).last.bind fun _ _ hy _ =>
          (alike_block hg hy (by omega)).last.bind fun _ _ hz _ => .pure hz

theorem alike_tryStatement : Alike P E 1 (tryStatement g) (tryStatement g') s := by
  refine (hg.expect hs _).bind fun _ _ ht _ => (alike_resources hg ht (by omega)).bind
    fun _ _ hu _ => (alike_block hg hu (by omega)).last.bind fun _ _ hv _ =>
      (Alike.manyWhile (fun _ hw _ => (alike_catchClause hg hw (by omega)).last) hv).bind
        fun _ _ hw _ => hg.eatIte hw (fun _ hx _ => ?_) ?_
  · exact ((alike_block hg hx (by omega)).last.map _).bind fun _ _ hy _ =>
      .ite (fun _ => hg.fails hy _) fun _ => .pure hy
  · exact (Alike.pure hw).bind fun _ _ hx _ => .ite (fun _ => hg.fails hx _) fun _ => .pure hx

theorem alike_caseLabels : Alike P E 1 (caseLabels g) (caseLabels g') s :=
  hg.eatIte hs (fun _ ht _ => .pure ht) ((hg.expect hs _).bind fun _ _ ht _ =>
    (hg.sepBy ht (fun _ hu _ => alike_conditional hg hu (by omega)) _).last)

omit le in
theorem alike_arrowBody (lt : s.left < n) : Alike P E 0 (arrowBody g) (arrowBody g') s :=
  .get (.ite (fun _ => (hg.statement hs lt).last) fun _ =>
    (alike_expressionStatement hg hs (by omega)).last.bind fun _ _ ht _ => .get (.pure ht))

theorem alike_switchCase : Alike P E 1 (switchCase g) (switchCase g') s := by
  refine (alike_caseLabels hg hs le).bind fun _ _ ht _ => hg.eatIte ht (fun _ hu _ => ?_) ?_
  · exact (alike_arrowBody hg hu (by omega)).bind fun _ _ hv _ => .pure hv
  · exact (hg.expect ht _).last.bind fun _ _ hu _ =>
      (Alike.manyWhile (fun _ hv _ => (hg.blockStatement hv (by omega)).last) hu).bind
        fun _ _ hv _ => .pure hv

theorem alike_switchStatement : Alike P E 1 (switchStatement g) (switchStatement g') s :=
  (hg.expect hs _).bind fun _ _ ht _ => (alike_parenExpr hg ht (by omega)).last.bind
    fun _ _ hu _ => (hg.expect hu _).last.bind fun _ _ hv _ =>
      (Alike.manyWhile (fun _ hw _ => (alike_switchCase hg hw (by omega)).last) hv).bind
        fun _ _ hw _ => (hg.expect hw _).last.bind fun _ _ hx _ => .pure hx

theorem alike_synchronizedStatement :
    Alike P E 1 (synchronizedStatement g) (synchronizedStatement g') s :=
  (hg.expect hs _).bind fun _ _ ht _ => (alike_parenExpr hg ht (by omega)).last.bind
    fun _ _ hu _ => (alike_block hg hu (by omega)).last.bind fun _ _ hv _ => .pure hv

theorem alike_assertStatement : Alike P E 1 (assertStatement g) (assertStatement g') s := by
  refine (hg.expect hs _).bind fun _ _ ht _ => (alike_expr hg ht (by omega)).last.bind
    fun _ _ hu _ => hg.eatIte hu (fun _ hv _ => ?_) ?_
  · exact ((alike_expr hg hv (by omega)).last.map _).bind fun _ _ hw _ =>
      (hg.expect hw _).last.bind fun _ _ hx _ => .pure hx
  · exact (Alike.pure hu).bind fun _ _ hv _ => (hg.expect hv _).last.bind fun _ _ hw _ => .pure hw

theorem alike_keywordStatement : Alike P E 1 (keywordStatement g) (keywordStatement g') s := by
  refine .get ?_
  split
  · exact alike_ifStatement hg hs le
  · exact alike_whileStatement hg hs le
  · exact alike_doStatement hg hs le
  · exact alike_forStatement hg hs le
  · exact alike_returnStatement hg hs le
  · exact alike_breakStatement hg.toInvariant hs
  · exact alike_continueStatement hg.toInvariant hs
  · exact alike_throwStatement hg hs le
  · exact alike_tryStatement hg hs le
  · exact alike_switchStatement hg hs le
  · exact alike_synchronizedStatement hg hs le
  · exact alike_assertStatement hg hs le
  · exact alike_expressionStatement hg hs le

theorem alike_statementKind : Alike P E 1 (statementKind g) (statementKind g') s := by
  refine .get (.ite (fun _ => (alike_block hg hs le).bind fun _ _ ht _ => .pure ht) fun _ => ?_)
  refine hg.eatIte hs (fun _ ht _ => .pure ht)
    (.ite (fun _ => alike_keywordStatement hg hs le) fun _ => ?_)
  refine .ite (fun h => ?_) fun _ => alike_expressionStatement hg hs le
  have here := Stream.not_atEnd_of_isAtKind (Bool.and_eq_true_iff.1 h).1 (by decide)
  exact (hg.takeName hs here).bind fun _ _ ht _ => (hg.take ht).bind fun _ _ hu _ =>
    (hg.statement hu (by omega)).last.bind fun _ _ hv _ => .pure hv

theorem alike_statement : Alike P E 1 (statement g) (statement g') s :=
  (hg.beginDecision hs).bind fun _ _ ht _ => (alike_statementKind hg ht (by omega)).bind
    fun _ _ hu _ => .get (.pure hu)

theorem alike_localVar : Alike P E 1 (localVar g) (localVar g') s :=
  .get ((alike_modifiers hg hs le).bind fun _ _ ht _ => (alike_typeRef hg ht (by omega)).bind
    fun _ _ hu _ => (hg.identifier hu).last.bind
      fun _ _ hv _ => (alike_varDeclRest hg hv (by omega) _ _ _ _).last)

theorem alike_blockStatement : Alike P E 1 (blockStatement g) (blockStatement g') s := by
  refine (hg.beginDecision hs).bind fun _ _ ht _ => (alike_startsTypeDecl hg ht (by omega)).bind
    fun _ _ hu _ => .ite (fun _ => ?_) fun _ => ?_
  · exact (alike_modifiers hg hu (by omega)).bind fun _ _ hv _ =>
      (alike_typeDecl hg hv (by omega) _ _).bind fun _ _ hw _ => .pure hw
  · exact (alike_startsLocalVar hg hu (by omega)).bind fun _ _ hv _ =>
      .ite (fun _ => (alike_localVar hg hv (by omega)).bind fun _ _ hw _ => .pure hw)
        fun _ => alike_statement hg hv (by omega)

/-! ### Sketches -/

theorem alike_methodBody (hasThrows : Bool) :
    Alike P E 1 (methodBody g hasThrows) (methodBody g' hasThrows) s := by
  refine .get (.ite (fun _ => (alike_block hg hs le).bind fun _ _ ht _ => .pure ht) fun _ => ?_)
  refine hg.eatIte hs (fun _ ht _ => .pure ht) (hg.eatIte hs (fun _ ht _ => ?_) (hg.fails hs _))
  exact (alike_varInit hg ht (by omega)).last.bind fun _ _ hu _ => (hg.expect hu _).last.bind
    fun _ _ hv _ => .pure hv

theorem alike_methodRest (start : Nat) (ms : List Modifier) (params : List TypeParam)
    (returnType : Option TypeRef) (name : Ident) :
    Alike P E 1 (methodRest g start ms params returnType name)
      (methodRest g' start ms params returnType name) s :=
  (hg.parenList hs fun _ ht _ => alike_param hg ht (by omega)).bind fun _ _ ht _ =>
    (alike_dims hg.toInvariant ht).bind fun _ _ hu _ =>
      (alike_typeClause hg hu (by omega) _).bind fun _ _ hv _ =>
        (alike_methodBody hg hv (by omega) _).last.bind fun _ _ hw _ => .get (.pure hw)

theorem alike_initializer (isStatic : Bool) :
    Alike P E 1 (initializer g isStatic) (initializer g' isStatic) s :=
  (alike_block hg hs le).bind fun _ _ ht _ => .pure ht

theorem alike_typedMember (className : Option String) (start : Nat) (ms : List Modifier) :
    Alike P E 1 (typedMember g className start ms) (typedMember g' className start ms) s := by
  refine (alike_typeParams hg hs le).bind fun _ _ ht _ => .get (.ite (fun _ => ?_) fun _ => ?_)
  · exact (hg.takeIdent ht).bind fun _ _ hu _ =>
      (alike_methodRest hg hu (by omega) _ _ _ _ _).bind fun _ _ hv _ => .pure hv
  · refine (alike_typeRef hg ht (by omega)).bind fun _ _ hu _ => (hg.identifier hu).last.bind
      fun _ _ hv _ => .get (.ite (fun _ => ?_) fun _ => ?_)
    · exact (alike_methodRest hg hv (by omega) _ _ _ _ _).last.bind fun _ _ hw _ => .pure hw
    · exact (alike_varDeclRest hg hv (by omega) _ _ _ _).last.bind fun _ _ hw _ => .pure hw

theorem alike_member (className : Option String) :
    Alike P E 1 (member g className) (member g' className) s := by
  refine (hg.beginDecision hs).bind fun _ _ ht _ => .get (.ite (fun h => ?_) fun _ =>
    .ite (fun _ => ?_) fun _ => .ite (fun _ => alike_initializer hg ht (by omega) _) fun _ =>
      .ite (fun _ => ?_) fun _ => ?_)
  · exact (hg.takeSome ht (Stream.not_atEnd_of_isAt h)).bind fun _ _ hu _ => .pure hu
  · exact (alike_importDecl hg.toInvariant ht).bind fun _ _ hu _ => .pure hu
  · exact (hg.take ht).bind fun _ _ hu _ => alike_initializer hg hu (by omega) _
  · exact (alike_modifiers hg ht (by omega)).bind fun _ _ hu _ => .get (.ite
      (fun _ => (alike_typeDecl hg hu (by omega) _ _).bind fun _ _ hv _ => .pure hv)
      fun _ => alike_typedMember hg hu (by omega) _ _ _)

theorem alike_startsMethod : Alike P E 0 (startsMethod g) (startsMethod g') s :=
  Alike.foresee ((alike_modifiers hg hs le).bind fun _ _ ht _ =>
    (alike_typeParams hg ht (by omega)).bind fun _ _ hu _ =>
      (alike_typeRef hg hu (by omega)).last.bind fun _ _ hv _ => .get (.get (.pure hv))) hs

theorem alike_method : Alike P E 1 (method g) (method g') s :=
  .get ((alike_modifiers hg hs le).bind fun _ _ ht _ => (alike_typeParams hg ht (by omega)).bind
    fun _ _ hu _ => (alike_typeRef hg hu (by omega)).bind fun _ _ hv _ =>
      (hg.identifier hv).last.bind
        fun _ _ hw _ => (alike_methodRest hg hw (by omega) _ _ _ _ _).last)

theorem alike_item : Alike P E 1 (item g) (item g') s := by
  refine (hg.beginDecision hs).bind fun _ _ ht _ => .get (.ite (fun _ => ?_) fun _ => ?_)
  · exact (alike_importDecl hg.toInvariant ht).bind fun _ _ hu _ => .pure hu
  refine (alike_startsTypeDecl hg ht (by omega)).bind fun _ _ hu _ => .ite (fun _ => ?_) fun _ => ?_
  · exact (alike_modifiers hg hu (by omega)).bind fun _ _ hv _ =>
      (alike_typeDecl hg hv (by omega) _ _).bind fun _ _ hw _ => .pure hw
  refine (alike_startsMethod hg hu (by omega)).bind fun _ _ hv _ => .ite (fun _ => ?_) fun _ => ?_
  · exact (alike_method hg hv (by omega)).bind fun _ _ hw _ => .pure hw
  · exact (alike_blockStatement hg hv (by omega)).bind fun _ _ hw _ => .pure hw

theorem alike_sketch (length : Nat) : Alike P E 0 (sketch g length) (sketch g' length) s :=
  (alike_packageDecl? hg.toInvariant hs).bind fun _ _ ht _ =>
    (Alike.manyWhile (fun _ hu _ => (alike_item hg hu (by omega)).last) ht).bind
      fun _ _ hu _ => .pure hu

end

end Nesting

/-! ### Recursion -/

namespace Grammar

/-- The readers that turn to those of the grammar for what is nested. -/
def unfold (g : Grammar) : Grammar where
  type := typeRef g
  unary := Syntax.unary g
  binary := Syntax.binary g
  conditional := Syntax.conditional g
  expr := Syntax.expr g
  varInit := Syntax.varInit g
  block := Syntax.block g
  statement := Syntax.statement g
  blockStatement := Syntax.blockStatement g
  member := Syntax.member g

theorem Agree.unfold (hg : g.Agree P E n g') : g.unfold.Agree P E (n + 1) g'.unfold where
  toInvariant := hg.toInvariant
  type hs lt := alike_typeRef hg hs (Nat.le_of_lt_succ lt)
  unary hs lt := alike_unary hg hs (Nat.le_of_lt_succ lt)
  binary least hs lt := alike_binary hg hs (Nat.le_of_lt_succ lt) least
  conditional hs lt := alike_conditional hg hs (Nat.le_of_lt_succ lt)
  expr hs lt := alike_expr hg hs (Nat.le_of_lt_succ lt)
  varInit hs lt := alike_varInit hg hs (Nat.le_of_lt_succ lt)
  block hs lt := alike_block hg hs (Nat.le_of_lt_succ lt)
  statement hs lt := alike_statement hg hs (Nat.le_of_lt_succ lt)
  blockStatement hs lt := alike_blockStatement hg hs (Nat.le_of_lt_succ lt)
  member name hs lt := alike_member hg hs (Nat.le_of_lt_succ lt) name

/-- After `n` turns no stream of fewer than `n` tokens tells what the recursion began with. -/
theorem agree_iterate (inv : Invariant P E) (n : Nat) (g g' : Grammar) :
    (unfold^[n] g).Agree P E n (unfold^[n] g') := by
  induction n with
  | zero =>
    exact {
      toInvariant := inv
      type := fun _ lt => absurd lt (Nat.not_lt_zero _)
      unary := fun _ lt => absurd lt (Nat.not_lt_zero _)
      binary := fun _ _ lt => absurd lt (Nat.not_lt_zero _)
      conditional := fun _ lt => absurd lt (Nat.not_lt_zero _)
      expr := fun _ lt => absurd lt (Nat.not_lt_zero _)
      varInit := fun _ lt => absurd lt (Nat.not_lt_zero _)
      block := fun _ lt => absurd lt (Nat.not_lt_zero _)
      statement := fun _ lt => absurd lt (Nat.not_lt_zero _)
      blockStatement := fun _ lt => absurd lt (Nat.not_lt_zero _)
      member := fun _ _ lt => absurd lt (Nat.not_lt_zero _) }
  | succ n ih =>
    rw [Function.iterate_succ_apply', Function.iterate_succ_apply']
    exact ih.unfold

end Grammar

theorem grammarBelow_eq (n : Nat) : grammarBelow n = Grammar.unfold^[n] .nothing := by
  induction n with
  | zero => rfl
  | succ n ih =>
    rw [Function.iterate_succ_apply', ← ih]
    rfl

theorem agree_grammarBelow (inv : Invariant P E) (n : Nat) (g : Grammar) :
    (grammarBelow n).Agree P E n (Grammar.unfold^[n] g) :=
  grammarBelow_eq n ▸ Grammar.agree_iterate inv n .nothing g

end Syntax

/-- The errors of a sketch are those of its text and those of the streams that reading comes to. -/
theorem Sketch.error_of_parse {source : Text} {P : Syntax.Stream → Prop} {E : SyntaxError → Prop}
    (inv : Syntax.Reader.Invariant P E)
    (unrecognized : ∀ u, Token.tokenize source = .error u → E (.ofUnrecognized u))
    (begins : ∀ ts, Token.tokenize source = .ok ts → P (.ofTokens ts)) {e : SyntaxError}
    (h : Sketch.parse source = .error e) : E e := by
  unfold parse at h
  split at h
  · rename_i u hu
    obtain rfl := Except.error.inj h
    exact unrecognized u hu
  · rename_i ts hts
    have agree := Syntax.agree_grammarBelow inv (ts.body.length + 1) .nothing
    have alike := Syntax.alike_sketch agree (begins ts hts) (Nat.le_succ _) source.size
    split at h
    · rename_i he
      obtain rfl := Except.error.inj h
      exact alike.of_error he
    · cases h

end SketchPrep
