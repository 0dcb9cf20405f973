import SketchPrep.Proofs.Syntax.Locality.Statements

/-!
Members and items before a fork, and the recursion of the readers. Main statements: `local_whole`,
what the readers find before a fork does not depend on how the text goes on; `follows_item`, so it
is for the items of a sketch.
-/

namespace SketchPrep.Syntax

open Reader

variable {f : Fork} {g : Grammar} {n : Nat} {s s' : Stream}

section

variable (hg : g.Local f n)

include hg

/-! ### Methods -/

theorem follows_methodBody (hasThrows : Bool) (le : s.left ≤ n) :
    Follows f 0 1 (Option.map Block.unspanned) (methodBody g hasThrows) (methodBody g hasThrows)
      s s' := by
  refine .get (.ite (by decide) (fun within => within.isAt _) (fun _ => ?_) fun _ =>
    .eatIte (by decide) (fun _ _ _ => .pure rfl)
      (.eatIte (by decide) (fun t t' less => ?_) .failWith))
  · exact (follows_block hg le).returningSome
  · exact ((follows_varInit hg (by omega)).closedBy fun _ _ _ => rfl).last

theorem follows_methodRest {start start' : Nat} {ms ms' : List Modifier}
    {params params' : List TypeParam} {type type' : Option TypeRef} {name name' : Ident}
    (modifiers : ms.map Modifier.unspanned = ms'.map Modifier.unspanned)
    (typeParams : params.map TypeParam.unspanned = params'.map TypeParam.unspanned)
    (types : type.map TypeRef.unspanned = type'.map TypeRef.unspanned)
    (names : name.unspanned = name'.unspanned) (le : s.left ≤ n) :
    Follows f 0 1 MethodDecl.unspanned (methodRest g start ms params type name)
      (methodRest g start' ms' params' type' name') s s' := by
  refine (Follows.parenList fun t t' less => follows_param hg (by omega)).andThen (by decide)
    fun ps ps' t t' parameters _ => .bindLockstep (by decide) lockstep_dims fun _ _ u u' _ _ =>
      .bindLockstep (by decide) (lockstep_typeClause hg (by decide) (by omega))
        fun es es' w w' exceptions _ => ?_
  rw [isEmpty_of_map exceptions]
  refine (follows_methodBody hg _ (by omega)).returningAt fun b b' _ _ body => ?_
  simp [MethodDecl.unspanned, modifiers, typeParams, types, names, parameters, exceptions, body]

theorem follows_method (le : s.left ≤ n) :
    Follows f 0 1 MethodDecl.unspanned (method g) (method g) s s' :=
  .get ((follows_modifiers hg le).andThen (by decide) fun ms ms' t t' modifiers less =>
    .bindLockstep (by decide) (lockstep_typeParams hg (by omega)) fun ps ps' u u' params _ =>
      .bindLockstep (by decide) (lockstep_typeRef hg (by omega)).last fun type type' w w' types _ =>
        Follows.identifier.andThen (by decide) fun id id' x x' names _ =>
          follows_methodRest hg modifiers params (by simp [types]) names (by omega))

/-! ### Members -/

theorem follows_initializer (isStatic : Bool) (le : s.left ≤ n) :
    Follows f 0 1 Member.unspanned (initializer g isStatic) (initializer g isStatic) s s' :=
  (follows_block hg le).returning fun b b' body => by simp [Member.unspanned, body]

theorem follows_typedMember (className : Option String) {start start' : Nat}
    {ms ms' : List Modifier} (modifiers : ms.map Modifier.unspanned = ms'.map Modifier.unspanned)
    (le : s.left ≤ n) : Follows f 0 1 Member.unspanned (typedMember g className start ms)
      (typedMember g className start' ms') s s' := by
  refine .bindLockstep (by decide) (lockstep_typeParams hg le) fun ps ps' t t' params less =>
    .get (.ite (by decide) (fun within => ?_) (fun _ => ?_) fun _ => ?_)
  · rw [within.text, within.isAtKind]
    refine within.and_behind (p := fun t => t.is "(") (fun name => ?_) fun _ _ moved => moved.is _
    exact Stream.not_closes_of_isAtKind (Bool.and_eq_true_iff.1 name).1 (by decide)
  · exact Follows.takeIdent.andThen (by decide) fun id id' u u' names _ =>
      (follows_methodRest hg modifiers params rfl names (by omega)).returning
        fun d d' decl => by simp [Member.unspanned, decl]
  · refine .bindLockstep (by decide) (lockstep_typeRef hg (by omega)).last fun a a' u u' types _ =>
      .bindLockstep (by decide) Lockstep.identifier.last fun id id' w w' names _ =>
        .get (.ite (by decide) (fun within => within.isAt _) (fun _ => ?_) fun _ => ?_)
    · have method : (some a).map TypeRef.unspanned = (some a').map TypeRef.unspanned :=
        congrArg some types
      exact (follows_methodRest hg modifiers params method names (by omega)).returning
        fun d d' decl => by simp [Member.unspanned, decl]
    · exact (follows_varDeclRest hg modifiers types names (by omega)).returning
        fun d d' decl => by simp [Member.unspanned, decl]

theorem follows_member (className : Option String) (le : s.left ≤ n) :
    Follows f 0 1 Member.unspanned (member g className) (member g className) s s' := by
  have fits : s.begun.left ≤ n := le
  refine .begin (.get (.ite (by decide) (fun within => within.isAt _) (fun h => ?_) fun _ =>
    .ite (by decide) (fun within => within.isAt _) (fun _ => ?_) fun _ =>
      .ite (by decide) (fun within => within.isAt _) (fun _ => follows_initializer hg _ fits)
        fun _ => .ite (by decide) (fun within => within.isAt_isNext _ (by decide))
          (fun _ => ?_) fun _ => ?_))
  · exact (Follows.takeSome (Stream.not_atEnd_of_isAt h)).returning
      fun _ _ _ => by simp [Member.unspanned]
  · exact follows_importDecl.returning fun d d' decl => by simp [Member.unspanned, decl]
  · exact Follows.take.andThen (by decide) fun _ _ t t' _ less =>
      follows_initializer hg _ (by omega)
  · exact (follows_modifiers hg fits).andThen (by decide) fun ms ms' t t' modifiers less =>
      .get (.ite (by decide) same_isAtTypeKeyword
        (fun _ => (follows_typeDecl hg modifiers (by omega)).returning
          fun d d' decl => by simp [Member.unspanned, decl])
        fun _ => follows_typedMember hg className modifiers (by omega))

/-! ### Items -/

theorem follows_item (le : s.left ≤ n) :
    Follows f 0 1 Item.unspanned (item g) (item g) s s' := by
  have fits : s.begun.left ≤ n := le
  refine .begin (.get (.ite (by decide) (fun within => within.isAt _) (fun _ => ?_) fun _ =>
    follows_lookahead
      (fun parallel hms lt => same_startsTypeDecl hg fits parallel hms lt)
      (fun within h _ => hasModifiers_of_itemParts (s := s) hg.agree le within.marker h)
      fun b => .iteSame (fun _ => ?_) fun _ => follows_lookahead
        (fun parallel hms lt => same_startsMethod hg fits parallel hms lt)
        (fun within h _ => hasModifiers_of_methodOrStatement (s := s) hg.agree le within.marker h)
        fun b => .iteSame (fun _ => ?_) fun _ => ?_))
  · exact follows_importDecl.returning fun d d' decl => by simp [Item.unspanned, decl]
  · exact (follows_modifiers hg fits).andThen (by decide) fun ms ms' t t' modifiers less =>
      (follows_typeDecl hg modifiers (by omega)).returning
        fun d d' decl => by simp [Item.unspanned, decl]
  · exact (follows_method hg fits).returning fun d d' decl => by simp [Item.unspanned, decl]
  · exact (follows_blockStatement hg fits).returning fun a a' stmt => by simp [Item.unspanned, stmt]

end

/-! ### Recursion -/

namespace Grammar

theorem Local.unfold (hg : g.Local f n) : g.unfold.Local f (n + 1) where
  agree := hg.agree.unfold
  type lt := lockstep_typeRef hg (Nat.le_of_lt_succ lt)
  unary lt := follows_unary hg (Nat.le_of_lt_succ lt)
  binary least lt := follows_binary hg least (Nat.le_of_lt_succ lt)
  conditional lt := follows_conditional hg (Nat.le_of_lt_succ lt)
  expr lt := follows_expr hg (Nat.le_of_lt_succ lt)
  varInit lt := follows_varInit hg (Nat.le_of_lt_succ lt)
  block lt := follows_block hg (Nat.le_of_lt_succ lt)
  statement lt := follows_statement hg (Nat.le_of_lt_succ lt)
  blockStatement lt := follows_blockStatement hg (Nat.le_of_lt_succ lt)
  member name lt := follows_member hg name (Nat.le_of_lt_succ lt)

/-- The readers do not look beyond a fork, wherever it is. -/
theorem local_whole (f : Fork) (n : Nat) : whole.Local f n := by
  induction n with
  | zero =>
    exact {
      agree := agree_whole .any 0
      type := fun lt => absurd lt (Nat.not_lt_zero _)
      unary := fun lt => absurd lt (Nat.not_lt_zero _)
      binary := fun _ lt => absurd lt (Nat.not_lt_zero _)
      conditional := fun lt => absurd lt (Nat.not_lt_zero _)
      expr := fun lt => absurd lt (Nat.not_lt_zero _)
      varInit := fun lt => absurd lt (Nat.not_lt_zero _)
      block := fun lt => absurd lt (Nat.not_lt_zero _)
      statement := fun lt => absurd lt (Nat.not_lt_zero _)
      blockStatement := fun lt => absurd lt (Nat.not_lt_zero _)
      member := fun _ lt => absurd lt (Nat.not_lt_zero _) }
  | succ n ih => exact unfold_whole ▸ ih.unfold

end Grammar

end SketchPrep.Syntax
