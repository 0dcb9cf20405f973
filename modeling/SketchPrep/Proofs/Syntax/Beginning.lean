import SketchPrep.Proofs.Syntax.Recursion

/-!
No expression and no statement begins with a modifier. Main statement: `exists_modifiers`, where a
statement of a block can be read, its modifiers can be, none if it has none.
-/

namespace SketchPrep.Syntax

open Reader

variable {g : Grammar} {s t : Stream}

/-- No modifier comes next. -/
def Stream.IsPlain (s : Stream) : Prop := ¬(s.isAtMarker || s.isAtModifier)

/-- What a modifier is spelled with, or its first sign. -/
def modifierWords : List String := "@" :: "synchronized" :: "default" :: modifierKeywords

theorem Stream.isPlain_of_text (h : s.current.text ∉ modifierWords) : s.IsPlain := by
  simp only [modifierWords, List.mem_cons, not_or] at h
  obtain ⟨marker, synchronized, byDefault, others⟩ := h
  have no {w : String} (hw : s.current.text ≠ w) : s.isAt w = false := by
    simp [Stream.isAt, Token.is, hw]
  simp [IsPlain, isAtMarker, isAtModifier, no marker, no synchronized, no byDefault, others]

theorem Stream.isPlain_of_isAt {w : String} (h : s.isAt w) (hw : w ∉ modifierWords) :
    s.IsPlain :=
  isPlain_of_text (Stream.text_of_isAt h ▸ hw)

/-- An at sign is no name. -/
theorem Stream.isPlain_of_kind (marker : s.isAt "@" → s.current.kind = .punctuation)
    (h : s.current.kind ≠ .punctuation) (hk : s.current.kind ≠ .keyword) : s.IsPlain := by
  have no : s.isAt "@" = false := Bool.eq_false_iff.2 fun at_sign => h (marker at_sign)
  simp [IsPlain, isAtMarker, isAtModifier, no, isAtKind, hk]

theorem Stream.IsPlain.modifiers (h : s.IsPlain) : modifiers g s = .ok ([], s) :=
  manyWhile_stop h

theorem Reader.expect_eq_ok {w : String} {a : Token} :
    expect w s = .ok (a, t) ↔ s.isAt w ∧ a = s.current ∧ t = s.advance := by
  unfold expect
  split
  · rename_i here
    exact ⟨fun h => ⟨here, (Prod.mk.inj (Except.ok.inj h)).imp Eq.symm Eq.symm⟩, by
      rintro ⟨-, rfl, rfl⟩
      rfl⟩
  · rename_i here
    exact ⟨nofun, fun h => absurd h.1 here⟩

section

variable (marker : s.isAt "@" → s.current.kind = .punctuation)

include marker

/-! ### Expressions -/

omit marker in
theorem isPlain_of_keywordOperand {e : Expr} (h : keywordOperand g s = .ok (e, t)) :
    s.IsPlain := by
  refine Stream.isPlain_of_text fun listed => ?_
  have other : ∀ w ∈ modifierWords, w ∉ conversions ∧ w ∉ Token.primitiveTypes ∧ w ≠ "void" := by
    decide
  obtain ⟨conversion, primitive, void⟩ := other _ listed
  simp only [keywordOperand, get_bind] at h
  generalize hw : s.current.text = w at *
  split at h
  case h_7 => simp [conversion, Token.isPrimitiveType, hw, primitive, void, failWith] at h
  all_goals exact absurd listed (by decide)

theorem isPlain_of_primary {e : Expr} (h : primary g s = .ok (e, t)) : s.IsPlain := by
  simp only [primary, get_bind] at h
  cases kind : s.current.kind with
  | keyword =>
    rw [kind] at h
    exact isPlain_of_keywordOperand h
  | punctuation =>
    rw [kind] at h
    simp only [ite_run, ite_eq_ok] at h
    obtain ⟨opens, -⟩ | ⟨-, h⟩ := h
    · exact Stream.isPlain_of_isAt opens (by decide)
    · cases h
  | _ => exact Stream.isPlain_of_kind marker (by simp [kind]) (by simp [kind])

omit marker in
theorem castType?_cases {type? : Option TypeRef} (h : castType? g s = .ok (type?, t)) :
    s.isAt "(" ∨ type? = none ∧ t = s := by
  unfold castType? at h
  split at h
  · exact .inl ‹_›
  · obtain ⟨rfl, rfl⟩ := Prod.mk.inj (Except.ok.inj h)
    exact .inr ⟨rfl, rfl⟩

theorem isPlain_of_unary {e : Expr} (h : unary g s = .ok (e, t)) : s.IsPlain := by
  simp only [unary, get_bind] at h
  cases found : unaryOperators.find? s.isAt with
  | some op =>
    have listed := List.mem_of_find?_eq_some found
    refine Stream.isPlain_of_isAt (List.find?_some found) ?_
    exact (by decide : ∀ w ∈ unaryOperators, w ∉ modifierWords) op listed
  | none =>
    rw [found] at h
    obtain ⟨type?, u, cast, operand⟩ := bind_eq_ok.1 h
    obtain opens | ⟨rfl, rfl⟩ := castType?_cases cast
    · exact Stream.isPlain_of_isAt opens (by decide)
    · obtain ⟨e, v, base, -⟩ := bind_eq_ok.1 operand
      exact isPlain_of_primary marker base

theorem isPlain_of_conditional {e : Expr} (h : conditional g s = .ok (e, t)) : s.IsPlain := by
  obtain ⟨cond, u, h, -⟩ := bind_eq_ok.1 h
  obtain ⟨first, v, h, -⟩ := bind_eq_ok.1 h
  exact isPlain_of_unary marker h

omit marker in
theorem lambda?_cases {e? : Option Expr} (h : lambda? g s = .ok (e?, t)) :
    s.isAtKind .identifier ∨ s.isAt "(" ∨ e? = none ∧ t = s := by
  simp only [lambda?, get_bind, ite_run] at h
  split at h
  · rename_i arrow
    exact .inl (Bool.and_eq_true_iff.1 arrow).1
  split at h
  · rename_i opens
    exact .inr (.inl (Bool.and_eq_true_iff.1 opens).1)
  · obtain ⟨rfl, rfl⟩ := pure_eq_ok.1 h
    exact .inr (.inr ⟨rfl, rfl⟩)

theorem isPlain_of_expr {e : Expr} (h : expr g s = .ok (e, t)) : s.IsPlain := by
  obtain ⟨e?, u, lambda, other⟩ := bind_eq_ok.1 h
  obtain name | opens | ⟨rfl, rfl⟩ := lambda?_cases lambda
  · have kind := Stream.kind_of_isAtKind name
    exact Stream.isPlain_of_kind marker (by simp [kind]) (by simp [kind])
  · exact Stream.isPlain_of_isAt opens (by decide)
  · obtain ⟨lhs, v, cond, -⟩ := bind_eq_ok.1 other
    exact isPlain_of_conditional marker cond

/-! ### Statements -/

theorem isPlain_of_expressionStatement {k : StmtKind} (h : expressionStatement g s = .ok (k, t)) :
    s.IsPlain := by
  obtain ⟨e, u, h, -⟩ := bind_eq_ok.1 h
  exact isPlain_of_expr marker h

/-- A lock stands in parentheses. -/
theorem isPlain_of_keywordStatement {k : StmtKind} (h : keywordStatement g s = .ok (k, t)) :
    s.IsPlain := by
  have word {w : String} (hw : s.current.text = w) (other : w ∉ modifierWords) : s.IsPlain :=
    Stream.isPlain_of_text (hw ▸ other)
  simp only [keywordStatement, get_bind] at h
  generalize hw : s.current.text = w at h
  split at h
  case h_11 =>
    obtain ⟨_, u, lock, rest⟩ := bind_eq_ok.1 h
    obtain ⟨_, _, parens, -⟩ := bind_eq_ok.1 rest
    obtain ⟨_, _, opens, -⟩ := bind_eq_ok.1 parens
    obtain ⟨here, -, rfl⟩ := expect_eq_ok.1 lock
    obtain ⟨next, -, -⟩ := expect_eq_ok.1 opens
    rw [Stream.isAt, Stream.current_advance (Stream.not_atEnd_of_isAt here)] at next
    have no : s.isAt "@" = false := by simp [Stream.isAt, Token.is, hw]
    simp [Stream.IsPlain, Stream.isAtMarker, Stream.isAtModifier, no, here, Stream.isNext, next]
  case h_13 => exact isPlain_of_expressionStatement marker h
  all_goals exact word hw (by decide)

theorem isPlain_of_statementKind {k : StmtKind} (h : statementKind g s = .ok (k, t)) :
    s.IsPlain := by
  simp only [statementKind, get_bind, eat_bind, ite_run, ite_eq_ok, reduceIte, Bool.false_eq_true]
    at h
  obtain ⟨opens, -⟩ | ⟨-, ⟨semicolon, -⟩ | ⟨-, ⟨-, keyword⟩ | ⟨-, ⟨label, -⟩ | ⟨-, other⟩⟩⟩⟩ := h
  · exact Stream.isPlain_of_isAt opens (by decide)
  · exact Stream.isPlain_of_isAt semicolon (by decide)
  · exact isPlain_of_keywordStatement marker keyword
  · have kind := Stream.kind_of_isAtKind (Bool.and_eq_true_iff.1 label).1
    exact Stream.isPlain_of_kind marker (by simp [kind]) (by simp [kind])
  · exact isPlain_of_expressionStatement marker other

end

/-! ### Modifiers of statements and items -/

/-- The declaration or statement being read starts here. -/
def Stream.begun (s : Stream) : Stream := { s with decisionStart := s.lo }

/-- The modifiers of what is read from `s` to `t` can be read, and are not all of it. -/
def HasModifiers (g : Grammar) (s t : Stream) : Prop :=
  ∃ ms u, modifiers g s = .ok (ms, u) ∧ t.left < u.left

/-- Where there are none, the list of them is empty. -/
theorem Stream.IsPlain.hasModifiers (h : s.IsPlain) (lt : t.left < s.left) : HasModifiers g s t :=
  ⟨[], s, h.modifiers, lt⟩

/-- An expression in place of a statement is no modifier either. -/
theorem hasModifiers_of_bareExpr (marker : s.isAt "@" → s.current.kind = .punctuation) {a : Stmt}
    {u : Stream} (h : bareExpr g s = .ok (a, u)) (lt : t.left < s.left) : HasModifiers g s t := by
  obtain ⟨e, v, h, -⟩ := bind_eq_ok.1 h
  exact (isPlain_of_expr marker h).hasModifiers lt

section

variable {n : Nat} (hg : g.Agree (fun _ => True) (fun _ => True) n g) (le : s.left ≤ n)

include hg le

/-- Something has to come behind the modifiers. -/
theorem hasModifiers_of_bind {α : Type} {r : List Modifier → Reader α} {a : α}
    (hr : ∀ ms u, u.left ≤ s.left → Alike (fun _ => True) (fun _ => True) 1 (r ms) (r ms) u)
    (h : (modifiers g >>= r) s = .ok (a, t)) : HasModifiers g s t := by
  obtain ⟨ms, u, hms, rest⟩ := bind_eq_ok.1 h
  have fits := ((alike_modifiers hg trivial le).of_ok hms).2
  exact ⟨ms, u, hms, ((hr ms u fits).of_ok rest).2⟩

theorem hasModifiers_of_localVar {d : VarDecl} (h : localVar g s = .ok (d, t)) :
    HasModifiers g s t := by
  simp only [localVar, get_bind] at h
  refine hasModifiers_of_bind hg le (fun ms u fits => ?_) h
  exact (alike_typeRef hg trivial (by omega)).bind fun _ _ hv _ => (hg.identifier hv).last.bind
    fun _ _ hw _ => (alike_varDeclRest hg hw (by omega) _ _ _ _).last

theorem hasModifiers_of_method {d : MethodDecl} (h : method g s = .ok (d, t)) :
    HasModifiers g s t := by
  simp only [method, get_bind] at h
  refine hasModifiers_of_bind hg le (fun ms u fits => ?_) h
  exact (alike_typeParams hg trivial (by omega)).bind fun _ _ hv _ =>
    (alike_typeRef hg hv (by omega)).bind fun _ _ hw _ => (hg.identifier hw).last.bind
      fun _ _ hx _ => (alike_methodRest hg hx (by omega) _ _ _ _ _).last

theorem hasModifiers_of_forVariable {k : StmtKind} (h : forVariable g s = .ok (k, t)) :
    HasModifiers g s t := by
  simp only [forVariable, get_bind] at h
  refine hasModifiers_of_bind hg le (fun ms u fits => ?_) h
  refine (alike_typeRef hg trivial (by omega)).bind fun _ _ hv _ => (hg.identifier hv).last.bind
    fun _ _ hw _ => hg.eatIte hw (fun _ hx _ => ?_) ?_
  · exact (alike_expr hg hx (by omega)).last.bind fun _ _ hy _ => (hg.expect hy _).last.bind
      fun _ _ hz _ => (hg.statement hz (by omega)).last.bind fun _ _ hs _ => .pure hs
  · exact (alike_varDeclRest hg hw (by omega) _ _ _ _).last.bind fun _ _ hx _ =>
      (alike_forRest hg hx (by omega) _).last

theorem hasModifiers_of_resource (marker : s.isAt "@" → s.current.kind = .punctuation) {a : Stmt}
    (h : resource g s = .ok (a, t)) (lt : t.left < s.left) : HasModifiers g s t := by
  simp only [resource, get_bind] at h
  obtain ⟨b, u, starts, h⟩ := bind_eq_ok.1 h
  obtain rfl := foresee_eq_ok starts
  cases b with
  | true =>
    refine hasModifiers_of_bind hg le (fun ms u fits => ?_) h
    exact (alike_typeRef hg trivial (by omega)).bind fun _ _ hv _ => (hg.identifier hv).last.bind
      fun _ _ hw _ => (hg.expect hw _).last.bind fun _ _ hx _ =>
        (alike_expr hg hx (by omega)).last.bind fun _ _ hy _ => .get (.pure hy)
  | false => exact hasModifiers_of_bareExpr marker h lt

/-- What opens the parenthesis of a loop. -/
theorem hasModifiers_of_forParts (marker : s.isAt "@" → s.current.kind = .punctuation)
    {k : StmtKind} (h : (do
      if ← startsLocalVar g then forVariable g
      else
        let init ← if (← get).isAt ";" then pure [] else sepBy "," (bareExpr g)
        let _ ← expect ";"
        forRest g init) s = .ok (k, t)) (lt : t.left < s.left) : HasModifiers g s t := by
  obtain ⟨b, u, starts, h⟩ := bind_eq_ok.1 h
  obtain rfl := foresee_eq_ok starts
  cases b with
  | true => exact hasModifiers_of_forVariable hg le h
  | false =>
    simp only [get_bind, Bool.false_eq_true, if_false, ite_run, ite_eq_ok] at h
    obtain ⟨semicolon, -⟩ | ⟨-, h⟩ := h
    · exact (Stream.isPlain_of_isAt semicolon (by decide)).hasModifiers lt
    · obtain ⟨init, u, h, -⟩ := bind_eq_ok.1 h
      obtain ⟨first, v, h, -⟩ := bind_eq_ok.1 h
      exact hasModifiers_of_bareExpr marker h lt

theorem hasModifiers_of_statement (marker : s.isAt "@" → s.current.kind = .punctuation) {a : Stmt}
    (h : statement g s = .ok (a, t)) : HasModifiers g s t := by
  have lt := ((alike_statement hg trivial le).of_ok h).2
  obtain ⟨start, u, begins, rest⟩ := bind_eq_ok.1 h
  obtain ⟨rfl, rfl⟩ := Prod.mk.inj (Except.ok.inj begins)
  obtain ⟨k, v, kind, -⟩ := bind_eq_ok.1 rest
  exact Stream.IsPlain.hasModifiers (isPlain_of_statementKind (s := s.begun) marker kind) lt

/-- What else a statement of a block may be, if it is no class. -/
theorem hasModifiers_of_variableOrStatement (marker : s.isAt "@" → s.current.kind = .punctuation)
    {a : Stmt} (h : (do
      if ← startsLocalVar g then
        let decl ← localVar g
        return (⟨.localVar decl, decl.span⟩ : Stmt)
      statement g) s = .ok (a, t)) : HasModifiers g s t := by
  obtain ⟨b, u, starts, h⟩ := bind_eq_ok.1 h
  obtain rfl := foresee_eq_ok starts
  cases b with
  | true =>
    obtain ⟨d, v, decl, h⟩ := bind_eq_ok.1 h
    obtain ⟨-, rfl⟩ := pure_eq_ok.1 h
    exact hasModifiers_of_localVar hg le decl
  | false => exact hasModifiers_of_statement hg le marker h

theorem hasModifiers_of_blockStatement (marker : s.isAt "@" → s.current.kind = .punctuation)
    {a : Stmt} (h : blockStatement g s = .ok (a, t)) : HasModifiers g s.begun t := by
  obtain ⟨start, u, begins, h⟩ := bind_eq_ok.1 h
  obtain ⟨rfl, rfl⟩ := Prod.mk.inj (Except.ok.inj begins)
  obtain ⟨b, u, starts, h⟩ := bind_eq_ok.1 h
  obtain rfl := foresee_eq_ok starts
  cases b with
  | true =>
    refine hasModifiers_of_bind (s := s.begun) hg le (fun ms u fits => ?_) h
    exact (alike_typeDecl hg trivial (Nat.le_trans fits le) _ _).bind fun _ _ _ _ => .pure trivial
  | false => exact hasModifiers_of_variableOrStatement (s := s.begun) hg le marker h

/-- What else an item may be, if it is no import and no class. -/
theorem hasModifiers_of_methodOrStatement (marker : s.isAt "@" → s.current.kind = .punctuation)
    {i : Item} (h : (do
      if ← startsMethod g then return Item.method (← method g)
      return Item.stmt (← blockStatement g)) s.begun = .ok (i, t)) :
    HasModifiers g s.begun t := by
  obtain ⟨b, u, starts, h⟩ := bind_eq_ok.1 h
  obtain rfl := foresee_eq_ok starts
  cases b with
  | true =>
    obtain ⟨d, v, decl, h⟩ := bind_eq_ok.1 h
    obtain ⟨-, rfl⟩ := pure_eq_ok.1 h
    exact hasModifiers_of_method (s := s.begun) hg le decl
  | false =>
    -- A block statement begins anew, where the item does.
    obtain ⟨a, v, stmt, h⟩ := bind_eq_ok.1 h
    obtain ⟨-, rfl⟩ := pure_eq_ok.1 h
    exact hasModifiers_of_blockStatement (s := s.begun) hg le marker stmt

theorem hasModifiers_of_itemParts (marker : s.isAt "@" → s.current.kind = .punctuation) {i : Item}
    {start : Nat} (h : (do
      if ← startsTypeDecl g then
        let ms ← modifiers g
        return Item.type (← typeDecl g start ms)
      if ← startsMethod g then return Item.method (← method g)
      return Item.stmt (← blockStatement g)) s.begun = .ok (i, t)) :
    HasModifiers g s.begun t := by
  obtain ⟨b, u, starts, h⟩ := bind_eq_ok.1 h
  obtain rfl := foresee_eq_ok starts
  cases b with
  | true =>
    refine hasModifiers_of_bind (s := s.begun) hg le (fun ms u fits => ?_) h
    exact (alike_typeDecl hg trivial (Nat.le_trans fits le) _ _).bind fun _ _ _ _ => .pure trivial
  | false => exact hasModifiers_of_methodOrStatement hg le marker h

end

end SketchPrep.Syntax
