import SketchPrep.Proofs.Syntax.Follows

/-!
What is read before a fork does not depend on how the text goes on.
-/

namespace SketchPrep.Syntax

open Reader

/-- The nested readers of streams of fewer than `n` tokens do not look beyond the fork. -/
structure Grammar.Local (f : Fork) (n : Nat) (g : Grammar) : Prop where
  agree : g.Agree (fun _ => True) (fun _ => True) n g
  type : ∀ {s s'}, s.left < n → Lockstep f 1 TypeRef.unspanned g.type g.type s s'
  unary : ∀ {s s'}, s.left < n → Follows f 1 1 Expr.unspanned g.unary g.unary s s'
  binary : ∀ {s s'} least, s.left < n →
    Follows f 1 1 Expr.unspanned (g.binary least) (g.binary least) s s'
  conditional : ∀ {s s'}, s.left < n →
    Follows f 1 1 Expr.unspanned g.conditional g.conditional s s'
  expr : ∀ {s s'}, s.left < n → Follows f 1 1 Expr.unspanned g.expr g.expr s s'
  varInit : ∀ {s s'}, s.left < n → Follows f 1 1 Expr.unspanned g.varInit g.varInit s s'
  block : ∀ {s s'}, s.left < n → Follows f 0 1 Block.unspanned g.block g.block s s'
  statement : ∀ {s s'}, s.left < n → Follows f 0 1 Stmt.unspanned g.statement g.statement s s'
  blockStatement : ∀ {s s'}, s.left < n →
    Follows f 0 1 Stmt.unspanned g.blockStatement g.blockStatement s s'
  member : ∀ {s s'} name, s.left < n →
    Follows f 0 1 Member.unspanned (g.member name) (g.member name) s s'

variable {f : Fork} {g : Grammar} {n : Nat} {s s' : Stream}

/-! ### Types -/

theorem lockstep_dims : Lockstep f 0 id dims dims s s' := by
  have pairs : Lockstep f 0 (List.map Token.text)
      (manyWhile (fun s => s.isAt "[" && s.isNext "]") do let _ ← take; take)
      (manyWhile (fun s => s.isAt "[" && s.isNext "]") do let _ ← take; take) s s' := by
    refine .manyWhile (fun t t' within => within.isAt_isNext "]" (by decide)) fun t t' _ here => ?_
    obtain ⟨opens, closes⟩ := Bool.and_eq_true_iff.1 here
    have there := Stream.not_atEnd_of_isAt opens
    have next := Stream.isAt_advance there closes
    exact .takeBind there (Token.not_closes_of_is opens (by decide))
      (Lockstep.take (Stream.not_atEnd_of_isAt next) (Token.not_closes_of_is next (by decide))).last
  exact pairs.bind fun _ _ _ _ values _ => .pure (by simpa using congrArg List.length values)

theorem same_continuesName {t t' : Stream} (h : Within f t t') :
    t'.continuesName = t.continuesName := by
  unfold Stream.continuesName
  rw [h.isAt]
  exact h.and_behind (p := fun t => t.kind = .identifier)
    (fun point => Token.not_closes_of_is point (by decide))
    fun _ _ moved => by simp only [moved.kind]

theorem Stream.parts_of_continuesName {t : Stream} (h : t.continuesName) :
    ¬t.atEnd ∧ ¬t.current.closes ∧ t.advance.isAtKind .identifier := by
  obtain ⟨point, name⟩ := Bool.and_eq_true_iff.1 h
  have there := Stream.not_atEnd_of_isAt point
  refine ⟨there, Token.not_closes_of_is point (by decide), ?_⟩
  rw [Stream.isAtKind, Stream.current_advance there]
  exact name

theorem lockstep_name (h : s.isAtKind .identifier) :
    Lockstep f 1 Ident.unspanned takeIdent takeIdent s s' :=
  .takeIdent (Stream.not_atEnd_of_isAtKind h (by decide))
    (Stream.not_closes_of_isAtKind h (by decide))

theorem name_of_unspanned {id id' : Ident} (h : id.unspanned = id'.unspanned) :
    id.name = id'.name := by
  have names := congrArg Ident.name h
  exact names

theorem map_name_of_unspanned {ids ids' : List Ident}
    (h : ids.map Ident.unspanned = ids'.map Ident.unspanned) :
    ids.map Ident.name = ids'.map Ident.name := by
  have names := congrArg (List.map Ident.name) h
  rwa [List.map_map, List.map_map] at names

theorem lockstep_qualifiedName : Lockstep f 1 id qualifiedName qualifiedName s s' := by
  refine Lockstep.identifier.bind fun name name' t t' first _ => ?_
  refine (Lockstep.manyWhile (v := Ident.unspanned) (fun _ _ => same_continuesName)
    fun u u' _ here => ?_).bind fun ids ids' _ _ others _ => .pure ?_
  · obtain ⟨there, opens, name⟩ := Stream.parts_of_continuesName here
    exact .takeBind there opens (lockstep_name name).last
  · have names : (name :: ids).map Ident.name = (name' :: ids').map Ident.name :=
      map_name_of_unspanned (by rw [List.map_cons, List.map_cons, first, others])
    simp only [id, names]

section

variable (hg : g.Local f n)

include hg

theorem lockstep_typeArgs (le : s.left ≤ n) :
    Lockstep f 1 (List.map TypeRef.unspanned) (typeArgs g) (typeArgs g) s s' := by
  refine (Lockstep.expect (by decide)).bind fun _ _ t t' _ less =>
    .eatIte (by decide) (fun _ _ _ => .pure rfl) ?_
  exact (Lockstep.sepBy (by decide) fun u u' fits => hg.type (by omega)).last.bind
    fun _ _ _ _ args _ => (Lockstep.expect (by decide)).last.bind fun _ _ _ _ _ _ => .pure args

theorem lockstep_typeSegment (le : s.left ≤ n) (h : s.isAtKind .identifier) :
    Lockstep f 1 TypeSegment.unspanned (typeSegment g) (typeSegment g) s s' := by
  refine (lockstep_name h).bind fun id id' t t' name less =>
    .get (.ite (fun within => within.isAt "<") (fun _ => ?_) fun _ => .pure ?_)
  · exact (lockstep_typeArgs hg (by omega)).last.bind fun args args' _ _ same _ =>
      .pure (by simp [TypeSegment.unspanned, name, same])
  · simp [TypeSegment.unspanned, name]

theorem lockstep_namedType (le : s.left ≤ n) (h : s.isAtKind .identifier) :
    Lockstep f 1 TypeKind.unspanned (namedType g) (namedType g) s s' := by
  refine (lockstep_typeSegment hg le h).bind fun a a' t t' first less =>
    (Lockstep.manyWhile (v := TypeSegment.unspanned) (fun _ _ => same_continuesName)
      fun u u' fits here => ?_).bind fun as as' _ _ others _ => .pure ?_
  · obtain ⟨there, opens, name⟩ := Stream.parts_of_continuesName here
    have := u.left_advance_le
    exact .takeBind there opens (lockstep_typeSegment hg (by omega) name).last
  · simp [TypeKind.unspanned, first, others]

theorem lockstep_wildcardType (lt : s.left < n) :
    Lockstep f 0 TypeKind.unspanned (wildcardType g) (wildcardType g) s s' := by
  refine .get (.get (.ite (fun within => ?_) (fun h => ?_) fun _ => .pure rfl))
  · rw [within.isAt, within.isAt]
  · have parts : ¬s.atEnd ∧ ¬s.current.closes := by
      rcases Bool.or_eq_true_iff.1 h with h | h
      · exact ⟨Stream.not_atEnd_of_isAt h, Token.not_closes_of_is h (by decide)⟩
      · exact ⟨Stream.not_atEnd_of_isAt h, Token.not_closes_of_is h (by decide)⟩
    have := s.left_advance_le
    exact .takeBind parts.1 parts.2 ((hg.type (by omega)).last.bind fun bound bound' _ _ same _ =>
      .pure (by simp [TypeKind.unspanned, same]))

theorem lockstep_typeKind (le : s.left ≤ n) :
    Lockstep f 1 TypeKind.unspanned (typeKind g) (typeKind g) s s' := by
  refine .get (.ite (fun within => ?_) (fun h => .ite
    (fun within => within.isAt_isNext "." (by decide)) (fun _ => .failWith) fun _ => ?_)
    fun _ => ?_)
  · rw [within.current.isPrimitiveType, within.isAt]
  · have parts : ¬s.atEnd ∧ ¬s.current.closes := by
      rcases Bool.or_eq_true_iff.1 h with h | h
      · refine ⟨Stream.not_atEnd_of_isPrimitiveType h, Token.not_closes_of_kind fun sign => ?_⟩
        simp [Token.isPrimitiveType, sign] at h
      · exact ⟨Stream.not_atEnd_of_isAt h, Token.not_closes_of_is h (by decide)⟩
    exact (Lockstep.takeIdent parts.1 parts.2).bind fun id id' _ _ name _ =>
      .pure (by simp [TypeKind.unspanned, name])
  · exact .eatIte (by decide) (fun t t' less => lockstep_wildcardType hg (by omega))
      (.ite (fun within => within.isAtKind _) (lockstep_namedType hg le) fun _ => .failWith)

theorem lockstep_elementType (le : s.left ≤ n) :
    Lockstep f 1 TypeRef.unspanned (elementType g) (elementType g) s s' :=
  .get ((lockstep_typeKind hg le).bind fun kind kind' _ _ same _ =>
    .get (.pure (by simp [TypeRef.unspanned, same])))

theorem lockstep_typeRef (le : s.left ≤ n) :
    Lockstep f 1 TypeRef.unspanned (typeRef g) (typeRef g) s s' := by
  refine (lockstep_elementType hg le).bind fun a a' _ _ element _ =>
    lockstep_dims.bind fun k k' _ _ dims _ => .get (.pure ?_)
  obtain ⟨kind, dims, span⟩ := a
  obtain ⟨kind', dims', span'⟩ := a'
  simp_all [TypeRef.unspanned]

theorem lockstep_typeParam (le : s.left ≤ n) :
    Lockstep f 1 TypeParam.unspanned (typeParam g) (typeParam g) s s' := by
  refine Lockstep.identifier.bind fun id id' t t' name less =>
    .eatIte (by decide) (fun u u' shorter => ?_) (.pure (by simp [TypeParam.unspanned, name]))
  exact (Lockstep.sepBy (by decide) fun w w' fits => lockstep_typeRef hg (by omega)).last.bind
    fun bounds bounds' _ _ same _ => .pure (by simp [TypeParam.unspanned, name, same])

theorem lockstep_typeParams (le : s.left ≤ n) :
    Lockstep f 0 (List.map TypeParam.unspanned) (typeParams g) (typeParams g) s s' := by
  refine .eatIte (by decide) (fun t t' less => ?_) (.pure rfl)
  exact (Lockstep.sepBy (by decide) fun u u' fits => lockstep_typeParam hg (by omega)).last.bind
    fun _ _ _ _ params _ => (Lockstep.expect (by decide)).last.bind fun _ _ _ _ _ _ => .pure params

/-! ### Modifiers and parameters -/

omit hg in
theorem same_isAtMarker (h : Within f s s') : s'.isAtMarker = s.isAtMarker :=
  h.isAt_not_isNext "interface" (by decide)

omit hg in
theorem same_isAtModifier (h : Within f s s') : s'.isAtModifier = s.isAtModifier := by
  unfold Stream.isAtModifier
  rw [h.isAtKind]
  by_cases keyword : s.isAtKind .keyword
  · have next := h.next (Stream.not_closes_of_isAtKind keyword (by decide))
    simp only [h.isAt, h.text, Stream.isNext, next.is]
  · simp [keyword]

theorem follows_marker (le : s.left ≤ n) :
    Follows f 1 1 Annotation.unspanned (marker g) (marker g) s s' := by
  refine .get (Follows.expect.bind (by decide) fun _ _ t t' _ less =>
    .bindLockstep (by decide) lockstep_qualifiedName.last fun name name' u u' same shorter =>
      .eatIte (by decide) (fun w w' fits => ?_) ?_)
  · exact (Follows.closeList fun x x' least => hg.varInit (by omega)).last.mono.returningAt
      fun args args' _ _ values => by simp_all [ Annotation.unspanned]
  · exact (Follows.pure (v := List.map Expr.unspanned) rfl).returningAt
      fun args args' _ _ values => by simp_all [ Annotation.unspanned]

theorem follows_modifier (le : s.left ≤ n) :
    Follows f 1 0 Modifier.unspanned (modifier g) (modifier g) s s' :=
  .get (.ite (by decide) same_isAtMarker
    (fun _ => (follows_marker hg le).last.returning
      fun a a' same => by simp [Modifier.unspanned, same])
    fun _ => Follows.takeIdent.returning fun id id' same => by simp [Modifier.unspanned, same])

theorem follows_modifiers (le : s.left ≤ n) :
    Follows f 1 0 (List.map Modifier.unspanned) (modifiers g) (modifiers g) s s' :=
  .manyWhile (fun t t' within => by rw [same_isAtMarker within, same_isAtModifier within])
    fun t t' fits _ => follows_modifier hg (by omega)

theorem follows_param (le : s.left ≤ n) :
    Follows f 1 1 Param.unspanned (param g) (param g) s s' := by
  refine (follows_modifiers hg le).bind (by decide) fun ms ms' t t' modifiers less =>
    .bindLockstep (by decide) (lockstep_typeRef hg (by omega)) fun a a' u u' type shorter =>
      Follows.eat.bind (by decide) fun b b' w w' varargs _ =>
        Follows.identifier.bind (by decide) fun id id' x x' name _ =>
          .bindLockstep (by decide) lockstep_dims fun k k' _ _ dims _ => .pure ?_
  simp_all [Param.unspanned]

end

end SketchPrep.Syntax
