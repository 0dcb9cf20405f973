import SketchPrep.Proofs.Syntax.Beginning
import SketchPrep.Proofs.Syntax.Locality.Declarations

/-!
Statements before a fork. They end with a semicolon or a brace, which may be the last token before
it.
-/

namespace SketchPrep.Syntax

open Reader

variable {f : Fork} {g : Grammar} {n : Nat} {s s' : Stream}

/-- Where a decision begins is a place of an error at most. -/
theorem Reader.Follows.begin {β δ : Type} {m k : Nat} {v : β → δ} {r r' : Nat → Reader β}
    (h : Follows f m k v (r s.lo) (r' s'.lo) s.begun s'.begun) :
    Follows f m k v (beginDecision >>= r) (beginDecision >>= r') s s' := ⟨h.takes, h.reads⟩

theorem Within.and_not_atEnd (h : Within f s s') (w : String) :
    (!s'.isAt w && !s'.atEnd) = (!s.isAt w && !s.atEnd) := by
  rw [h.isAt, Bool.eq_false_iff.2 h.not_atEnd, Bool.eq_false_iff.2 h.not_atEnd']

/-- Where modifiers are read before the fork, what comes behind them is found in both texts. -/
theorem follows_lookahead {α δ : Type} {v : α → δ} {m : Nat} {p : Reader Bool}
    {r r' : Bool → Reader α}
    (same : ∀ {ms u b}, Parallel f s.ahead s'.ahead → modifiers g s = .ok (ms, u) →
      f.first.length < u.left → foresee p s = .ok (b, s) → foresee p s' = .ok (b, s'))
    (has : ∀ {a t}, Within f s s' → (foresee p >>= r) s = .ok (a, t) → t.left < s.left →
      HasModifiers g s t)
    (hr : ∀ b, Follows f m 1 v (r b) (r' b) s s') :
    Follows f m 1 v (foresee p >>= r) (foresee p >>= r') s s' := by
  have takes {a t} (h : (foresee p >>= r) s = .ok (a, t)) : t.left < s.left := by
    obtain ⟨b, u, starts, rest⟩ := bind_eq_ok.1 h
    obtain rfl := foresee_eq_ok starts
    exact (hr b).takes rest
  refine .of_within (by omega) takes fun within => ?_
  refine .foresee (fun b a t starts h le parallel => ?_) hr
  have read := (bind_of_ok starts).trans h
  obtain ⟨ms, u, hms, lt⟩ := has within read (takes read)
  exact same parallel hms (by omega) starts

theorem isEmpty_of_map {β δ : Type} {v : β → δ} {l l' : List β} (h : l.map v = l'.map v) :
    l.isEmpty = l'.isEmpty := by
  simpa using congrArg List.isEmpty h

theorem isNone_of_map {β δ : Type} {v : β → δ} {a a' : Option β} (h : a.map v = a'.map v) :
    a.isNone = a'.isNone := by
  simpa using congrArg Option.isNone h

section

variable (hg : g.Local f n)

include hg

/-! ### Blocks and parentheses -/

theorem follows_block (le : s.left ≤ n) :
    Follows f 0 1 Block.unspanned (block g) (block g) s s' :=
  .get (Follows.expect.andThen (by decide) fun _ _ t t' _ less =>
    (Follows.manyWhile (v := Stmt.unspanned) (fun _ _ within => within.and_not_atEnd _)
      fun u u' fits _ => (hg.blockStatement (by omega)).last.mono).andThen (by decide)
        fun stmts stmts' _ _ inner _ => Follows.expect.returningAt
          fun _ _ _ _ _ => by simp [Block.unspanned, inner])

theorem follows_parenExpr (le : s.left ≤ n) :
    Follows f 0 1 Expr.unspanned (parenExpr g) (parenExpr g) s s' :=
  Follows.expect.andThen (by decide) fun _ _ t t' _ less =>
    (hg.expr (by omega)).closedBy fun _ _ value => value

theorem follows_expressionStatement (le : s.left ≤ n) :
    Follows f 0 1 StmtKind.unspanned (expressionStatement g) (expressionStatement g) s s' :=
  (follows_expr hg le).closedBy fun e e' value => by simp [StmtKind.unspanned, value]

theorem follows_exprUntilSemicolon? (le : s.left ≤ n) :
    Follows f 0 1 (Option.map Expr.unspanned) (exprUntilSemicolon? g) (exprUntilSemicolon? g)
      s s' := by
  refine .get (.ite (by decide) (fun within => within.isAt _) (fun _ => ?_) fun _ => ?_)
  · exact (Follows.pure (v := Option.map Expr.unspanned) rfl).closedBy fun _ _ value => value
  · exact (follows_expr hg le).found.closedBy fun _ _ value => value

omit hg in
theorem follows_labelUntilSemicolon? :
    Follows f 0 1 (Option.map Ident.unspanned) labelUntilSemicolon? labelUntilSemicolon? s s' := by
  refine .get (.ite (by decide) (fun within => within.isAtKind _) (fun _ => ?_) fun _ => ?_)
  · exact Follows.takeIdent.found.closedBy fun _ _ label => label
  · exact (Follows.pure (v := Option.map Ident.unspanned) rfl).closedBy fun _ _ label => label

/-! ### Statements that begin with a keyword -/

theorem follows_ifStatement (le : s.left ≤ n) :
    Follows f 0 1 StmtKind.unspanned (ifStatement g) (ifStatement g) s s' := by
  refine Follows.expect.andThen (by decide) fun _ _ t t' _ less =>
    (follows_parenExpr hg (by omega)).andThen (by decide) fun cond cond' u u' test _ =>
      (hg.statement (by omega)).bind (by decide) fun yes yes' w w' body _ =>
        .eatIte (by decide) (fun x x' fits => ?_) ?_
  · exact (hg.statement (by omega)).last.found.returning
      fun no no' other => by simp [StmtKind.unspanned, test, body, other]
  · exact (Follows.pure (v := Option.map Stmt.unspanned) rfl).returning
      fun no no' other => by simp [StmtKind.unspanned, test, body, other]

theorem follows_whileStatement (le : s.left ≤ n) :
    Follows f 0 1 StmtKind.unspanned (whileStatement g) (whileStatement g) s s' :=
  Follows.expect.andThen (by decide) fun _ _ t t' _ less =>
    (follows_parenExpr hg (by omega)).andThen (by decide) fun cond cond' u u' test _ =>
      (hg.statement (by omega)).returning
        fun a a' body => by simp [StmtKind.unspanned, test, body]

theorem follows_doStatement (le : s.left ≤ n) :
    Follows f 0 1 StmtKind.unspanned (doStatement g) (doStatement g) s s' :=
  Follows.expect.andThen (by decide) fun _ _ t t' _ less =>
    (hg.statement (by omega)).andThen (by decide) fun a a' u u' body _ =>
      Follows.expect.andThen (by decide) fun _ _ w w' _ _ =>
        (follows_parenExpr hg (by omega)).mono.closedBy
          fun cond cond' test => by simp [StmtKind.unspanned, test, body]

theorem follows_bareExpr (le : s.left ≤ n) :
    Follows f 1 1 Stmt.unspanned (bareExpr g) (bareExpr g) s s' :=
  (follows_expr hg le).returning
    fun e e' value => by simp [Stmt.unspanned, StmtKind.unspanned, value]

theorem follows_forRest {init init' : List Stmt}
    (inits : init.map Stmt.unspanned = init'.map Stmt.unspanned) (le : s.left ≤ n) :
    Follows f 0 1 StmtKind.unspanned (forRest g init) (forRest g init') s s' :=
  (follows_exprUntilSemicolon? hg le).andThen (by decide) fun cond cond' t t' test less =>
    (Follows.closeList fun u u' fits => follows_expr hg (by omega)).andThen (by decide)
      fun es es' u u' update _ => (hg.statement (by omega)).returning
        fun a a' body => by simp [StmtKind.unspanned, inits, test, update, body]

theorem follows_forVariable (le : s.left ≤ n) :
    Follows f 0 1 StmtKind.unspanned (forVariable g) (forVariable g) s s' := by
  refine .get ((follows_modifiers hg le).andThen (by decide) fun ms ms' t t' modifiers less =>
    .bindLockstep (by decide) (lockstep_typeRef hg (by omega)).last fun type type' u u' types _ =>
      Follows.identifier.andThen (by decide) fun id id' w w' names _ =>
        .eatIte (by decide) (fun x x' fits => ?_) ?_)
  · refine Follows.last (k := 1) ((follows_expr hg (by omega)).andThen (by decide)
      fun e e' y y' iterable _ => Follows.expect.andThen (by decide)
        fun _ _ z z' _ _ => (hg.statement (by omega)).returning fun a a' body => ?_)
    simp [StmtKind.unspanned, Param.unspanned, modifiers, types, names, iterable, body]
  · refine (follows_varDeclRest hg modifiers types names (by omega)).andThen (by decide)
      fun d d' x x' decl _ => follows_forRest hg ?_ (by omega)
    simp [Stmt.unspanned, StmtKind.unspanned, decl]

theorem follows_forStatement (le : s.left ≤ n) :
    Follows f 0 1 StmtKind.unspanned (forStatement g) (forStatement g) s s' := by
  refine Follows.expect.andThen (by decide) fun _ _ t t' _ less =>
    Follows.expect.andThen (by decide) fun _ _ u u' _ fits => follows_lookahead
      (fun parallel hms lt => same_startsLocalVar hg (by omega) parallel hms lt)
      (fun within h lt => hasModifiers_of_forParts hg.agree (by omega) within.marker h lt)
      fun b => .iteSame (fun _ => follows_forVariable hg (by omega)) fun _ =>
        .get (.ite (by decide) (fun within => within.isAt _) (fun _ => ?_) fun _ => ?_)
  · exact (Follows.pure (m := 1) (v := List.map Stmt.unspanned) rfl).andThen (by decide)
      fun init init' w w' inits _ => Follows.expect.andThen (by decide)
        fun _ _ x x' _ _ => follows_forRest hg inits (by omega)
  · exact (Follows.sepBy fun w w' fits => follows_bareExpr hg (by omega)).andThen (by decide)
      fun init init' w w' inits _ => Follows.expect.andThen (by decide)
        fun _ _ x x' _ _ => follows_forRest hg inits (by omega)

theorem follows_returnStatement (le : s.left ≤ n) :
    Follows f 0 1 StmtKind.unspanned (returnStatement g) (returnStatement g) s s' :=
  Follows.expect.andThen (by decide) fun _ _ t t' _ less =>
    (follows_exprUntilSemicolon? hg (by omega)).returning
      fun e e' value => by simp [StmtKind.unspanned, value]

theorem follows_throwStatement (le : s.left ≤ n) :
    Follows f 0 1 StmtKind.unspanned (throwStatement g) (throwStatement g) s s' :=
  Follows.expect.andThen (by decide) fun _ _ t t' _ less =>
    (follows_expr hg (by omega)).closedBy fun e e' value => by simp [StmtKind.unspanned, value]

theorem follows_resource (le : s.left ≤ n) :
    Follows f 1 1 Stmt.unspanned (resource g) (resource g) s s' := by
  refine .get (follows_lookahead
    (fun parallel hms lt => same_startsLocalVar hg le parallel hms lt)
    (fun within h lt => hasModifiers_of_resource hg.agree le within.marker h lt)
    fun b => .iteSame (fun _ => ?_) fun _ => follows_bareExpr hg le)
  refine (follows_modifiers hg le).bind (by decide) fun ms ms' t t' modifiers less =>
    .bindLockstep (by decide) (lockstep_typeRef hg (by omega)) fun type type' u u' types _ =>
      Follows.identifier.last.bind (by decide) fun id id' w w' names _ =>
        Follows.expect.last.bind (by decide) fun _ _ x x' _ _ =>
          (follows_expr hg (by omega)).last.returningAt fun e e' _ _ init => ?_
  simp [Stmt.unspanned, StmtKind.unspanned, VarDecl.unspanned, Declarator.unspanned, modifiers,
    types, names, init]

theorem follows_resources (le : s.left ≤ n) :
    Follows f 1 0 (List.map Stmt.unspanned) (resources g) (resources g) s s' :=
  .eatIte (by decide) (fun t t' less => ((Follows.sepEndBy (fun _ _ within => by rw [within.isAt])
    fun u u' fits => (follows_resource hg (by omega)).last).closedBy
      fun _ _ values => values).last.mono) (.pure rfl)

theorem follows_catchClause (le : s.left ≤ n) :
    Follows f 0 1 CatchClause.unspanned (catchClause g) (catchClause g) s s' := by
  refine Follows.expect.andThen (by decide) fun _ _ t t' _ less =>
    Follows.expect.andThen (by decide) fun _ _ u u' _ _ =>
      (follows_modifiers hg (by omega)).andThen (by decide) fun ms ms' w w' modifiers _ =>
        .bindLockstep (by decide) (Lockstep.sepBy (by decide) fun x x' fits =>
          lockstep_typeRef hg (by omega)).last fun types types' x x' same _ =>
            Follows.identifier.andThen (by decide) fun id id' y y' name _ =>
              Follows.expect.andThen (by decide) fun _ _ z z' _ _ =>
                (follows_block hg (by omega)).returning fun b b' body => ?_
  simp [CatchClause.unspanned, modifiers, same, name, body]

theorem follows_tryStatement (le : s.left ≤ n) :
    Follows f 0 1 StmtKind.unspanned (tryStatement g) (tryStatement g) s s' := by
  refine Follows.expect.andThen (by decide) fun _ _ t t' _ less =>
    (follows_resources hg (by omega)).andThen (by decide) fun rs rs' u u' resources _ =>
      (follows_block hg (by omega)).bind (by decide) fun b b' w w' body _ =>
        (Follows.manyWhileTo (k := 1) (v := CatchClause.unspanned)
        (fun _ _ within => within.isAt _)
        (fun _ x ahead => Follows.not_isAt_of_stops ahead (by decide)) (by decide)
        fun x x' fits _ => follows_catchClause hg (by omega)).bind (by decide)
          fun ks ks' x x' catches _ =>
          have finish (finalizer finalizer' : Option Block) (y y' : Stream)
              (same : finalizer.map Block.unspanned = finalizer'.map Block.unspanned) :
              Follows f 0 0 StmtKind.unspanned
                ((if ks.isEmpty && finalizer.isNone && rs.isEmpty then
                  failWith (·.unexpected [.word "catch", .word "finally"])
                else return .tryCatch rs b ks finalizer))
                ((if ks'.isEmpty && finalizer'.isNone && rs'.isEmpty then
                  failWith (·.unexpected [.word "catch", .word "finally"])
                else return .tryCatch rs' b' ks' finalizer')) y y' := by
            rw [isEmpty_of_map catches, isEmpty_of_map resources, isNone_of_map same]
            refine .iteSame (fun _ => .failWith) fun _ => .pure ?_
            simp [StmtKind.unspanned, resources, body, catches, same]
          .eatIte (by decide)
            (fun y y' fits => (follows_block hg (by omega)).last.found.bind (by decide)
              fun _ _ z z' same _ => finish _ _ z z' same)
            ((Follows.pure (m := 0) (v := Option.map Block.unspanned) rfl).bind (by decide)
              fun _ _ z z' same _ => finish _ _ z z' same)

theorem follows_caseLabels (le : s.left ≤ n) :
    Follows f 1 1 (List.map Expr.unspanned) (caseLabels g) (caseLabels g) s s' :=
  .eatIte (by decide) (fun _ _ _ => .pure rfl)
    (Follows.expect.bind (by decide) fun _ _ t t' _ less =>
      (Follows.sepBy fun u u' fits => follows_conditional hg (by omega)).last)

theorem follows_arrowBody (lt : s.left < n) :
    Follows f 0 1 Stmt.unspanned (arrowBody g) (arrowBody g) s s' :=
  .get (.ite (by decide) (fun within => by rw [within.isAt, within.isAt])
    (fun _ => hg.statement lt)
    fun _ => (follows_expressionStatement hg (by omega)).returningAt
      fun kind kind' _ _ same => by simp [Stmt.unspanned, same])

theorem follows_switchCase (le : s.left ≤ n) :
    Follows f 1 1 SwitchCase.unspanned (switchCase g) (switchCase g) s s' := by
  refine (follows_caseLabels hg le).bind (by decide) fun es es' t t' labels less =>
    .eatIte (by decide) (fun u u' fits => ?_) ?_
  · exact (follows_arrowBody hg (by omega)).last.mono.returning
      fun a a' body => by simp [SwitchCase.unspanned, labels, body]
  · refine Follows.expect.last.bind (by decide) fun _ _ u u' _ fits =>
      (Follows.manyWhile (v := Stmt.unspanned) (fun w w' within => ?_)
        fun w w' fits _ => (hg.blockStatement (by omega)).last.mono).returning
          fun stmts stmts' body => by simp [SwitchCase.unspanned, labels, body]
    simp only [Stream.isInCase, within.isAt, Bool.eq_false_iff.2 within.not_atEnd,
      Bool.eq_false_iff.2 within.not_atEnd']

theorem follows_switchStatement (le : s.left ≤ n) :
    Follows f 0 1 StmtKind.unspanned (switchStatement g) (switchStatement g) s s' :=
  Follows.expect.andThen (by decide) fun _ _ t t' _ less =>
    (follows_parenExpr hg (by omega)).andThen (by decide) fun e e' u u' selector _ =>
      Follows.expect.andThen (by decide) fun _ _ w w' _ _ =>
        (Follows.manyWhile (v := SwitchCase.unspanned) (fun _ _ within => within.and_not_atEnd _)
          fun x x' fits _ => (follows_switchCase hg (by omega)).last).closedBy
            fun ks ks' cases => by simp [StmtKind.unspanned, selector, cases]

theorem follows_synchronizedStatement (le : s.left ≤ n) :
    Follows f 0 1 StmtKind.unspanned (synchronizedStatement g) (synchronizedStatement g) s s' :=
  Follows.expect.andThen (by decide) fun _ _ t t' _ less =>
    (follows_parenExpr hg (by omega)).andThen (by decide) fun e e' u u' lock _ =>
      (follows_block hg (by omega)).returning
        fun b b' body => by simp [StmtKind.unspanned, lock, body]

theorem follows_assertStatement (le : s.left ≤ n) :
    Follows f 0 1 StmtKind.unspanned (assertStatement g) (assertStatement g) s s' := by
  refine Follows.expect.andThen (by decide) fun _ _ t t' _ less =>
    (follows_expr hg (by omega)).andThen (by decide) fun cond cond' u u' test _ =>
      .eatIte (by decide) (fun w w' fits => ?_) ?_
  · exact ((follows_expr hg (by omega)).found.closedBy
      fun message message' text => by simp [StmtKind.unspanned, test, text]).last
  · exact (Follows.pure (v := Option.map Expr.unspanned) rfl).closedBy
      fun message message' text => by simp [StmtKind.unspanned, test, text]

omit hg in
theorem follows_breakStatement :
    Follows f 0 1 StmtKind.unspanned breakStatement breakStatement s s' :=
  Follows.expect.andThen (by decide) fun _ _ _ _ _ _ =>
    follows_labelUntilSemicolon?.returning
      fun label label' same => by simp [StmtKind.unspanned, same]

omit hg in
theorem follows_continueStatement :
    Follows f 0 1 StmtKind.unspanned continueStatement continueStatement s s' :=
  Follows.expect.andThen (by decide) fun _ _ _ _ _ _ =>
    follows_labelUntilSemicolon?.returning
      fun label label' same => by simp [StmtKind.unspanned, same]

theorem follows_keywordStatement (le : s.left ≤ n) :
    Follows f 0 1 StmtKind.unspanned (keywordStatement g) (keywordStatement g) s s' := by
  refine .of_within (by decide) (left_of_alike (alike_keywordStatement hg.agree trivial le))
    fun within => .get ?_
  rw [within.text]
  split
  · exact follows_ifStatement hg le
  · exact follows_whileStatement hg le
  · exact follows_doStatement hg le
  · exact follows_forStatement hg le
  · exact follows_returnStatement hg le
  · exact follows_breakStatement
  · exact follows_continueStatement
  · exact follows_throwStatement hg le
  · exact follows_tryStatement hg le
  · exact follows_switchStatement hg le
  · exact follows_synchronizedStatement hg le
  · exact follows_assertStatement hg le
  · exact follows_expressionStatement hg le

/-! ### Statements -/

theorem follows_statementKind (le : s.left ≤ n) :
    Follows f 0 1 StmtKind.unspanned (statementKind g) (statementKind g) s s' := by
  refine .get (.ite (by decide) (fun within => within.isAt _) (fun _ => ?_) fun _ =>
    .eatIte (by decide) (fun _ _ _ => .pure rfl)
      (.ite (by decide) (fun within => within.isAtKind _)
        (fun _ => follows_keywordStatement hg le) fun _ =>
          .ite (by decide) (fun within => within.isAtKind_isNext _ (by decide)) (fun h => ?_)
            fun _ => follows_expressionStatement hg le))
  · exact (follows_block hg le).returning fun b b' body => by simp [StmtKind.unspanned, body]
  · have here := Stream.not_atEnd_of_isAtKind (Bool.and_eq_true_iff.1 h).1 (by decide)
    exact (Follows.takeName here).andThen (by decide) fun id id' t t' name less =>
      Follows.take.andThen (by decide) fun _ _ u u' _ _ =>
        (hg.statement (by omega)).returning
          fun a a' body => by simp [StmtKind.unspanned, name, body]

theorem follows_statement (le : s.left ≤ n) :
    Follows f 0 1 Stmt.unspanned (statement g) (statement g) s s' := by
  have fits : s.begun.left ≤ n := le
  exact .begin ((follows_statementKind hg fits).returningAt
    fun kind kind' _ _ same => by simp [Stmt.unspanned, same])

theorem follows_localVar (le : s.left ≤ n) :
    Follows f 0 1 VarDecl.unspanned (localVar g) (localVar g) s s' :=
  .get ((follows_modifiers hg le).andThen (by decide) fun ms ms' t t' modifiers less =>
    .bindLockstep (by decide) (lockstep_typeRef hg (by omega)).last fun type type' u u' types _ =>
      Follows.identifier.andThen (by decide) fun id id' w w' names _ =>
        follows_varDeclRest hg modifiers types names (by omega))

theorem follows_blockStatement (le : s.left ≤ n) :
    Follows f 0 1 Stmt.unspanned (blockStatement g) (blockStatement g) s s' := by
  have fits : s.begun.left ≤ n := le
  refine .begin (follows_lookahead
    (fun parallel hms lt => same_startsTypeDecl hg fits parallel hms lt)
    (fun within h _ => hasModifiers_of_blockStatement (s := s) hg.agree le within.marker h)
    fun b => .iteSame (fun _ => ?_) fun _ => follows_lookahead
      (fun parallel hms lt => same_startsLocalVar hg fits parallel hms lt)
      (fun within h _ => hasModifiers_of_variableOrStatement hg.agree fits within.marker h)
      fun b => .iteSame (fun _ => ?_) fun _ => follows_statement hg fits)
  · exact (follows_modifiers hg fits).andThen (by decide) fun ms ms' t t' modifiers less =>
      (follows_typeDecl hg modifiers (by omega)).returning
        fun d d' decl => by simp [Stmt.unspanned, StmtKind.unspanned, decl]
  · exact (follows_localVar hg fits).returning
      fun d d' decl => by simp [Stmt.unspanned, StmtKind.unspanned, decl]

end

end SketchPrep.Syntax
