import SketchPrep.Proofs.Syntax.Locality.Types

/-!
Expressions before a fork. A lambda may have a block, so that semicolons and braces are passed.
-/

namespace SketchPrep.Syntax

open Reader

variable {f : Fork} {g : Grammar} {n : Nat} {s s' : Stream}

theorem follows_takeMany (k : Nat) : Follows f 1 0 id (takeMany k) (takeMany k) s s' := by
  induction k generalizing s s' with
  | zero => exact .pure rfl
  | succ k ih => exact Follows.take.bind (by decide) fun _ _ _ _ _ _ => ih

theorem follows_literal (kind : LiteralKind) (h : ¬s.atEnd) :
    Follows f 1 1 Expr.unspanned (literal kind) (literal kind) s s' :=
  (Follows.takeSome h).mono.returning
    fun _ _ text => by simp [Expr.unspanned, ExprKind.unspanned, text]

theorem follows_selectedName : Follows f 1 0 Ident.unspanned selectedName selectedName s s' :=
  .get (.ite (by decide) (fun within => by rw [funext within.isAt]) (fun _ => .takeIdent)
    fun _ => Follows.identifier.last.mono)

theorem follows_methodReference {e e' : Expr} (same : e.unspanned = e'.unspanned) :
    Follows f 1 0 Expr.unspanned (methodReference e) (methodReference e') s s' := by
  refine .get (.ite (by decide) (fun within => within.isAt "new") (fun _ => ?_) fun _ => ?_)
  · exact Follows.takeIdent.returningAt
      fun id id' _ _ name => by simp [Expr.unspanned, ExprKind.unspanned, same, name]
  · exact Follows.identifier.last.mono.returningAt
      fun id id' _ _ name => by simp [Expr.unspanned, ExprKind.unspanned, same, name]

section

variable (hg : g.Local f n)

include hg

/-! ### Lambdas -/

theorem follows_lambdaParam (le : s.left ≤ n) :
    Follows f 1 1 LambdaParam.unspanned (lambdaParam g) (lambdaParam g) s s' := by
  refine .get (.ite (by decide) (fun within => ?_) (fun h => ?_) fun _ => ?_)
  · rw [within.isAtKind]
    exact within.and_behind (p := fun t => t.is "," || t.is ")")
      (fun name => Stream.not_closes_of_isAtKind name (by decide))
      fun _ _ moved => by rw [moved.is, moved.is]
  · have here := Stream.not_atEnd_of_isAtKind (Bool.and_eq_true_iff.1 h).1 (by decide)
    exact (Follows.takeName here).mono.returning
      fun id id' name => by simp [LambdaParam.unspanned, name]
  · refine (follows_param hg le).returning fun p p' same => ?_
    cases p
    cases p'
    simp_all [Param.unspanned, LambdaParam.unspanned]

theorem follows_lambdaRest {start start' : Nat} {params params' : List LambdaParam}
    (same : params.map LambdaParam.unspanned = params'.map LambdaParam.unspanned)
    (le : s.left ≤ n) : Follows f 1 1 Expr.unspanned (lambdaRest g start params)
      (lambdaRest g start' params') s s' := by
  refine Follows.expect.bind (by decide) fun _ _ t t' _ less =>
    .get (.ite (by decide) (fun within => within.isAt _) (fun _ => ?_) fun _ => ?_)
  · refine ((hg.block (by omega)).last.mono.map (v := LambdaBody.unspanned)
      fun b b' block => ?_).returningAt fun body body' _ _ result => ?_
    · simp [LambdaBody.unspanned, block]
    · simp [Expr.unspanned, ExprKind.unspanned, same, result]
  · refine ((hg.expr (by omega)).last.map (v := LambdaBody.unspanned)
      fun e e' value => ?_).returningAt fun body body' _ _ result => ?_
    · simp [LambdaBody.unspanned, value]
    · simp [Expr.unspanned, ExprKind.unspanned, same, result]

theorem follows_lambda? (le : s.left ≤ n) :
    Follows f 1 0 (Option.map Expr.unspanned) (lambda? g) (lambda? g) s s' := by
  refine .get (.ite (by decide) (fun within => within.isAtKind_isNext "->" (by decide))
    (fun _ => ?_) fun _ => .ite (by decide) (fun within => ?_) (fun _ => ?_) fun _ => .pure rfl)
  · refine Follows.takeIdent.bind (by decide) fun id id' t t' name less => ?_
    have params : [LambdaParam.mk none id].map LambdaParam.unspanned =
        [LambdaParam.mk none id'].map LambdaParam.unspanned := by
      simp [LambdaParam.unspanned, name]
    exact (follows_lambdaRest hg params (by omega)).last.returningSome
  · rw [within.isAt, within.parallel.closesBeforeArrow_eq]
  · refine Follows.take.bind (by decide) fun _ _ t t' _ less =>
      (Follows.sepEndBy (fun u u' within => by rw [within.isAt]) fun u u' fits =>
        (follows_lambdaParam hg (by omega)).last).bind (by decide) fun ps ps' u u' params fits => ?_
    exact Follows.expect.last.bind (by decide) fun _ _ w w' _ _ =>
      (follows_lambdaRest hg params (by omega)).last.returningSome

/-! ### Operands -/

theorem follows_arrayInit (le : s.left ≤ n) :
    Follows f 0 1 Expr.unspanned (arrayInit g) (arrayInit g) s s' := by
  exact .get (Follows.expect.andThen (by decide) fun _ _ t t' _ less =>
    (Follows.sepEndBy (fun u u' within => by rw [within.isAt])
      fun u u' fits => (hg.varInit (by omega)).last).bind (by decide) fun es es' _ _ elements _ =>
        Follows.expect.returningAt
          fun _ _ _ _ _ => by simp [Expr.unspanned, ExprKind.unspanned, elements])

theorem follows_arguments (le : s.left ≤ n) :
    Follows f 0 1 (List.map Expr.unspanned) (arguments g) (arguments g) s s' :=
  .parenList fun t t' less => hg.expr (by omega)

theorem follows_call {target target' : Option Expr} {name name' : Ident} {start start' : Nat}
    (targets : target.map Expr.unspanned = target'.map Expr.unspanned)
    (names : name.unspanned = name'.unspanned) (le : s.left ≤ n) :
    Follows f 0 1 Expr.unspanned (call g target name start) (call g target' name' start') s s' :=
  (follows_arguments hg le).returningAt
    fun args args' _ _ same => by simp [Expr.unspanned, ExprKind.unspanned, targets, names, same]

theorem follows_membersUntilClose (name : Option String) (lt : s.left < n) :
    Follows f 0 1 (List.map Member.unspanned) (membersUntilClose g name)
      (membersUntilClose g name) s s' :=
  (Follows.manyWhile (v := Member.unspanned) (fun t t' within => by
    rw [within.isAt, Bool.eq_false_iff.2 within.not_atEnd, Bool.eq_false_iff.2 within.not_atEnd'])
      fun t t' fits _ => (hg.member name (by omega)).last.mono).closedBy fun _ _ members => members

theorem follows_classBody? (lt : s.left < n) :
    Follows f 1 0 (Option.map (List.map Member.unspanned)) (classBody? g) (classBody? g) s s' :=
  .eatIte (by decide)
    (fun t t' less => (follows_membersUntilClose hg none (by omega)).last.mono.returningSome)
    (.pure rfl)

theorem follows_arraySize (lt : s.left < n) :
    Follows f 1 0 Expr.unspanned (arraySize g) (arraySize g) s s' :=
  Follows.take.bind (by decide) fun _ _ t t' _ less =>
    ((hg.expr (by omega)).closedBy fun _ _ size => size).last.mono

theorem follows_arrayRest {start start' : Nat} {type type' : TypeRef}
    (types : type.unspanned = type'.unspanned) (lt : s.left < n) :
    Follows f 1 0 Expr.unspanned (arrayRest g start type) (arrayRest g start' type') s s' := by
  refine (Follows.manyWhile (v := Expr.unspanned)
    (fun t t' within => within.isAt_not_isNext "]" (by decide))
    fun t t' fits _ => follows_arraySize hg (by omega)).bind (by decide) fun es es' t t' sizes _ =>
      .bindLockstep (by decide) lockstep_dims fun k k' u u' dims shorter =>
        .get (.ite (by decide) (fun within => within.isAt _) (fun _ => ?_) fun _ => ?_)
  · refine (follows_arrayInit hg (by omega)).last.mono.found.returningAt
      fun init init' _ _ inits => ?_
    simp_all [Expr.unspanned, ExprKind.unspanned]
  · refine (Follows.pure (v := Option.map Expr.unspanned) rfl).returningAt
      fun init init' _ _ inits => ?_
    simp_all [Expr.unspanned, ExprKind.unspanned]

theorem follows_creation (le : s.left ≤ n) :
    Follows f 1 1 Expr.unspanned (creation g) (creation g) s s' := by
  refine .get (Follows.expect.bind (by decide) fun _ _ t t' _ less =>
    .bindLockstep (by decide) (lockstep_elementType hg (by omega)).last fun a a' u u' type _ =>
      .get (.ite (by decide) (fun within => within.isAt _) (fun _ => ?_) fun _ => ?_))
  · exact follows_arrayRest hg type (by omega)
  · exact (follows_arguments hg (by omega)).last.bind (by decide) fun es es' w w' args fits =>
      (follows_classBody? hg (by omega)).returningAt fun body body' _ _ members => by
        simp [Expr.unspanned, ExprKind.unspanned, type, args, members]

theorem follows_nameOrCall {plain : Ident → ExprKind} (h : ¬s.atEnd)
    (hplain : ∀ id id', id.unspanned = id'.unspanned →
      (plain id).unspanned = (plain id').unspanned) (le : s.left ≤ n) :
    Follows f 1 1 Expr.unspanned (nameOrCall g plain) (nameOrCall g plain) s s' :=
  (Follows.takeName h).bind (by decide) fun id id' t t' name less =>
    .get (.ite (by decide) (fun within => within.isAt _)
      (fun _ => (follows_call hg (by rfl) name (by omega)).last.mono)
      fun _ => .pure (by simp [Expr.unspanned, hplain id id' name]))

theorem follows_classLiteral (le : s.left ≤ n) :
    Follows f 1 1 Expr.unspanned (classLiteral g) (classLiteral g) s s' := by
  refine .get (.bindLockstep (by decide) (lockstep_typeRef hg le) fun a a' t t' type less =>
    .get (.get (.ite (by decide) (fun within => within.isAt_isNext "class" (by decide))
      (fun _ => ?_) fun _ => .failWith)))
  exact (follows_takeMany 2).returningAt
    fun _ _ _ _ _ => by simp [Expr.unspanned, ExprKind.unspanned, type]

theorem follows_keywordOperand (h : ¬s.atEnd) (le : s.left ≤ n) :
    Follows f 1 1 Expr.unspanned (keywordOperand g) (keywordOperand g) s s' := by
  refine .of_within (by decide) (left_of_alike (alike_keywordOperand hg.agree trivial le h))
    fun within => .get ?_
  rw [within.text]
  split
  · exact follows_literal _ h
  · exact follows_literal _ h
  · exact follows_literal _ h
  · exact follows_nameOrCall hg h (fun _ _ _ => rfl) le
  · exact follows_nameOrCall hg h (fun _ _ _ => rfl) le
  · exact follows_creation hg le
  · refine .ite (by decide) (fun within => ?_)
      (fun _ => follows_nameOrCall hg h (fun id id' name => ?_) le)
      fun _ => .ite (by decide) (fun within => ?_) (fun _ => follows_classLiteral hg le)
        fun _ => .failWith
    · refine within.and_behind (fun listed => ?_) fun _ _ moved => moved.is _
      refine Token.not_closes_of_text (fun text => ?_) fun text => ?_
      · simp [text, conversions] at listed
      · simp [text, conversions] at listed
    · simp [ExprKind.unspanned, name]
    · rw [within.current.isPrimitiveType]

theorem follows_parenthesized (le : s.left ≤ n) :
    Follows f 0 1 Expr.unspanned (parenthesized g) (parenthesized g) s s' :=
  .get (Follows.expect.andThen (by decide) fun _ _ t t' _ less =>
    (hg.expr (by omega)).last.bind (by decide) fun e e' _ _ inner _ =>
      Follows.expect.returningAt
        fun _ _ _ _ _ => by simp [Expr.unspanned, ExprKind.unspanned, inner])

theorem follows_primary (le : s.left ≤ n) :
    Follows f 1 1 Expr.unspanned (primary g) (primary g) s s' := by
  refine .of_within (by decide) (left_of_alike (alike_primary hg.agree trivial le)) fun within =>
    .get ?_
  have h := within.not_atEnd
  rw [within.current.kind]
  cases s.current.kind with
  | identifier =>
    exact follows_nameOrCall hg h (fun id id' name => by simp [ExprKind.unspanned, name]) le
  | keyword => exact follows_keywordOperand hg h le
  | punctuation =>
    exact .ite (by decide) (fun within => within.isAt _)
      (fun _ => (follows_parenthesized hg le).mono) fun _ => .failWith
  | endOfInput => exact .failWith
  | _ => exact follows_literal _ h

/-! ### Selectors and operators -/

theorem follows_selection {e e' : Expr} (same : e.unspanned = e'.unspanned) (lt : s.left < n) :
    Follows f 1 0 Expr.unspanned (selection g e) (selection g e') s s' := by
  -- What comes after the type parameters comes without them as well.
  have name {t t' : Stream} (le : t.left ≤ s.left) : Follows f 1 0 Expr.unspanned (do
        let name ← selectedName
        if (← get).isAt "(" then call g (some e) name e.span.lo
        else return ⟨.field e name, (← get).spanFrom e.span.lo⟩) (do
        let name ← selectedName
        if (← get).isAt "(" then call g (some e') name e'.span.lo
        else return ⟨.field e' name, (← get).spanFrom e'.span.lo⟩) t t' := by
    refine follows_selectedName.bind (by decide) fun id id' u u' name less =>
      .get (.ite (by decide) (fun within => within.isAt _) (fun _ => ?_) fun _ => .get (.pure ?_))
    · exact (follows_call hg (by simp [same]) name (by omega)).last.mono
    · simp [Expr.unspanned, ExprKind.unspanned, same, name]
  exact .get (.ite (by decide) (fun within => within.isAt _)
    (fun _ => .bindLockstep (by decide) (lockstep_typeParams hg (by omega))
      fun _ _ t t' _ less => name (by omega))
    fun _ => name (Nat.le_refl _))

theorem follows_indexing {e e' : Expr} (same : e.unspanned = e'.unspanned) (lt : s.left < n) :
    Follows f 1 0 Expr.unspanned (indexing g e) (indexing g e') s s' :=
  (hg.expr lt).last.bind (by decide) fun i i' _ _ position _ =>
    Follows.expect.last.mono.returningAt
      fun _ _ _ _ _ => by simp [Expr.unspanned, ExprKind.unspanned, same, position]

theorem follows_selector {e e' : Expr} (same : e.unspanned = e'.unspanned) (lt : s.left < n) :
    Follows f 1 0 (Option.map Expr.unspanned) (selector g e) (selector g e') s s' := by
  refine .get (.eatIte (by decide) (fun t t' less => ?_) (.eatIte (by decide) (fun t t' less => ?_)
    (.ite (by decide) (fun within => ?_) (fun _ => ?_) fun _ =>
      .eatIte (by decide) (fun t t' less => ?_) (.pure rfl))))
  · exact (follows_selection hg same (by omega)).returningSome
  · exact (follows_indexing hg same (by omega)).returningSome
  · rw [within.isAt, within.isAt]
  · exact Follows.take.returningAt
      fun _ _ _ _ text => by simp [Expr.unspanned, ExprKind.unspanned, same, text]
  · exact (follows_methodReference same).returningSome

theorem follows_typeTest {e e' : Expr} (same : e.unspanned = e'.unspanned) (le : s.left ≤ n) :
    Follows f 1 1 Expr.unspanned (typeTest g e) (typeTest g e') s s' := by
  refine Follows.eat.bind (by decide) fun b b' t t' isFinal less =>
    .bindLockstep (by decide) (lockstep_typeRef hg (by omega)) fun a a' u u' type shorter =>
      .get (.ite (by decide) (fun within => ?_) (fun _ => ?_) fun _ => .get (.pure ?_))
  · rw [within.isAtKind, show b = b' from isFinal]
  · exact Follows.identifier.last.mono.returningAt
      fun _ _ _ _ _ => by simp [Expr.unspanned, ExprKind.unspanned, same, type]
  · simp [Expr.unspanned, ExprKind.unspanned, same, type]

theorem follows_operation (least : Nat) {e e' : Expr} (same : e.unspanned = e'.unspanned)
    (lt : s.left < n) : Follows f 1 0 (Option.map Expr.unspanned) (operation g least e)
      (operation g least e') s s' := by
  have takes {b : Option Expr} {t : Stream} (h : operation g least e s = .ok (b, t)) :
      t.left + b.toList.length ≤ s.left :=
    left_of_alikeIf (alike_operation hg.agree trivial lt least e) h
  refine .of_within (by decide) (fun h => Nat.le_of_add_right_le (takes h)) fun within => .get ?_
  rw [within.operator]
  obtain ⟨op, k⟩ := s.operator
  simp only
  cases precedence? op with
  | none => exact .pure rfl
  | some p =>
    refine .iteSame (fun _ => .pure rfl) fun _ =>
      (follows_takeMany k).bind (by decide) fun _ _ t t' _ less =>
        .iteSame (fun _ => ?_) fun _ => ?_
    · exact (follows_typeTest hg same (by omega)).last.returningSome
    · exact (hg.binary _ (by omega)).last.returning
        fun rhs rhs' right => by simp [Expr.unspanned, ExprKind.unspanned, same, right]

omit hg in
theorem readsAsCast_congr {a a' : TypeRef} {t t' : Token} (types : a.unspanned = a'.unspanned)
    (moved : t.Moved f.shift t') : readsAsCast a' t' = readsAsCast a t := by
  obtain ⟨kind, dims, span⟩ := a
  obtain ⟨kind', dims', span'⟩ := a'
  have kinds : kind.unspanned = kind'.unspanned := by
    simp only [TypeRef.unspanned, TypeRef.mk.injEq] at types
    exact types.1
  have word : t'.is = t.is := funext moved.is
  cases kind with
  | primitive id =>
    cases kind' with
    | primitive id' =>
      simp only [TypeKind.unspanned, TypeKind.primitive.injEq] at kinds
      have name : id'.name = id.name := (congrArg Ident.name kinds).symm
      simp only [readsAsCast, name]
    | wildcard bound => cases bound <;> cases kinds
    | named => cases kinds
  | named segments =>
    cases kind' with
    | named segments' =>
      simp only [readsAsCast, moved.kind, moved.isLiteral, moved.isPrimitiveType, word]
    | wildcard bound => cases bound <;> cases kinds
    | primitive => cases kinds
  | wildcard bound =>
    cases kind' with
    | wildcard => rfl
    | _ => cases bound <;> cases kinds

theorem follows_castType? (le : s.left ≤ n) :
    Follows f 1 0 (Option.map TypeRef.unspanned) (castType? g) (castType? g) s s' := by
  have takes {b : Option TypeRef} {t : Stream} (h : castType? g s = .ok (b, t)) :
      t.left + b.toList.length ≤ s.left := left_of_alikeIf (alike_castType? hg.agree trivial le) h
  refine .of_within (by decide) (fun h => Nat.le_of_add_right_le (takes h)) fun within => ?_
  by_cases opens : s.isAt "("
  · have := s.left_advance_le
    have read := (lockstep_typeRef hg (by omega)).same
      (within.advance (Token.not_closes_of_is opens (by decide)))
    generalize hs : typeRef g s.advance = x, hs' : typeRef g s'.advance = x' at read
    have opens' : s'.isAt "(" := within.isAt _ ▸ opens
    cases read with
    | error =>
      have none : castType? g s = .ok (none, s) := by simp only [castType?, opens, hs, if_true]
      have none' : castType? g s' = .ok (.none, s') := by
        simp only [castType?, opens', hs', if_true]
      exact .of_ok none none' rfl within.parallel (Nat.le_refl _)
    | @ok type type' next next' same inner =>
      have casts : (next'.isAt ")" && readsAsCast type' (next'.nth 1)) =
          (next.isAt ")" && readsAsCast type (next.nth 1)) := by
        rw [inner.isAt]
        cases closes : next.isAt ")" with
        | false => rfl
        | true =>
          exact readsAsCast_congr same (inner.next (Token.not_closes_of_is closes (by decide)))
      by_cases here : next.isAt ")" && readsAsCast type (next.nth 1)
      · have found : castType? g s = .ok (some type, next.advance) := by
          simp only [castType?, opens, hs, here, if_true]
        have found' : castType? g s' = .ok (some type', next'.advance) := by
          simp only [castType?, opens', hs', casts, here, if_true]
        refine .of_ok found found' (by simp [same]) inner.advance_parallel ?_
        have shorter := left_of_alike (alike_typeRef hg.agree trivial (by omega)) hs
        have := next.left_advance_le
        omega
      · have none : castType? g s = .ok (none, s) := by
          simp only [castType?, opens, hs, here, if_true, if_false, Bool.false_eq_true]
        have none' : castType? g s' = .ok (.none, s') := by
          simp only [castType?, opens', hs', casts, here, if_true, if_false, Bool.false_eq_true]
        exact .of_ok none none' rfl within.parallel (Nat.le_refl _)
  · have none : castType? g s = .ok (none, s) := if_neg opens
    have none' : castType? g s' = .ok (.none, s') := if_neg (by rwa [within.isAt])
    exact .of_ok none none' rfl within.parallel (Nat.le_refl _)

theorem follows_unary (le : s.left ≤ n) :
    Follows f 1 1 Expr.unspanned (unary g) (unary g) s s' := by
  have alike := alike_unary hg.agree (s := s) trivial le
  refine .taking (left_of_alike alike)
    (.of_within (m := 1) (k := 0) (by decide) (left_of_alike alike.last) fun within => .get ?_)
  rw [funext within.isAt]
  split
  · rename_i op found
    have here := Stream.not_atEnd_of_isAt (List.find?_some found)
    exact (Follows.takeSome here).andThen (by decide) fun _ _ t t' _ less =>
      (hg.unary (by omega)).last.returning
        fun e e' operand => by simp [Expr.unspanned, ExprKind.unspanned, operand]
  · refine (follows_castType? hg le).bindOption (by decide) (fun a a' t t' type found => ?_)
      fun t t' less => ?_
    · have less := left_of_alikeIf (alike_castType? hg.agree trivial le) found
      rw [Option.toList_some, List.length_singleton] at less
      exact (hg.unary (by omega)).last.returning
        fun e e' operand => by simp [Expr.unspanned, ExprKind.unspanned, type, operand]
    · exact (follows_primary hg (by omega)).andThen (by decide) fun e e' u u' base shorter =>
        .extend base fun c c' w w' same fits => follows_selector hg same (by omega)

theorem follows_binary (least : Nat) (le : s.left ≤ n) :
    Follows f 1 1 Expr.unspanned (binary g least) (binary g least) s s' :=
  (follows_unary hg le).bind (by decide) fun e e' t t' first less =>
    .extend first fun c c' u u' same fits => follows_operation hg least same (by omega)

theorem follows_conditional (le : s.left ≤ n) :
    Follows f 1 1 Expr.unspanned (conditional g) (conditional g) s s' := by
  refine (follows_binary hg 1 le).bind (by decide) fun e e' t t' cond less =>
    .eatIte (by decide) (fun u u' shorter => ?_) (.pure cond)
  refine (hg.expr (by omega)).last.bind (by decide) fun yes yes' w w' first fits =>
    Follows.expect.last.bind (by decide) fun _ _ x x' _ least =>
      (follows_lambda? hg (by omega)).bindOption (by decide) (fun no no' _ _ second _ => ?_)
        fun y y' _ => ?_
  · exact (Follows.pure (v := Expr.unspanned) second).returning
      fun no no' second => by simp [Expr.unspanned, ExprKind.unspanned, cond, first, second]
  · exact (hg.conditional (by omega)).last.returning
      fun no no' second => by simp [Expr.unspanned, ExprKind.unspanned, cond, first, second]

theorem follows_expr (le : s.left ≤ n) : Follows f 1 1 Expr.unspanned (expr g) (expr g) s s' := by
  refine .taking (left_of_alike (alike_expr hg.agree trivial le))
    ((follows_lambda? hg le).bindOption (k := 0) (by decide) (fun _ _ _ _ same _ => .pure same)
      fun t t' less => ?_)
  refine (follows_conditional hg (by omega)).andThen (by decide) fun lhs lhs' u u' first shorter =>
    .get ?_
  have assignment (op : String) (k : Nat) : Follows f 1 0 Expr.unspanned
      (if assignOperators.contains op then do
        takeMany k
        let rhs ← g.expr
        return ⟨.assign op lhs rhs, lhs.span.upTo rhs.span⟩
      else return lhs)
      (if assignOperators.contains op then do
        takeMany k
        let rhs ← g.expr
        return ⟨.assign op lhs' rhs, lhs'.span.upTo rhs.span⟩
      else return lhs') u u' := by
    refine .iteSame (fun _ => ?_) fun _ => .pure first
    exact (follows_takeMany k).bind (by decide) fun _ _ w w' _ fits =>
      (hg.expr (by omega)).last.returning
        fun rhs rhs' second => by simp [Expr.unspanned, ExprKind.unspanned, first, second]
  refine .of_within (by decide) (assignment _ _).takes fun within => ?_
  rw [within.operator]
  exact assignment _ _

theorem follows_varInit (le : s.left ≤ n) :
    Follows f 1 1 Expr.unspanned (varInit g) (varInit g) s s' :=
  .get (.ite (by decide) (fun within => within.isAt _) (fun _ => (follows_arrayInit hg le).mono)
    fun _ => follows_expr hg le)

end

end SketchPrep.Syntax
