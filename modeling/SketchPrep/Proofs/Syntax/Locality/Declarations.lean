import SketchPrep.Proofs.Syntax.Locality.Expressions

/-!
Declarations before a fork, and how statements are told from them. What tells them apart reads
modifiers first, which the statement that is found has read as well, or has not got.
-/

namespace SketchPrep.Syntax

open Reader

variable {f : Fork} {g : Grammar} {n : Nat} {s s' : Stream}

/-! ### Imports and packages -/

theorem follows_packageDecl? :
    Follows f 1 0 (Option.map PackageDecl.unspanned) packageDecl? packageDecl? s s' := by
  refine .get (.ite (by decide) (fun within => within.isAt _) (fun _ => ?_) fun _ => .pure rfl)
  exact Follows.take.bind (by decide) fun _ _ t t' _ _ =>
    .bindLockstep (by decide) lockstep_qualifiedName.last fun name name' _ _ same _ =>
      Follows.expect.last.mono.returningAt fun _ _ _ _ _ => by simp_all [PackageDecl.unspanned]

theorem follows_importDecl :
    Follows f 0 1 ImportDecl.unspanned importDecl importDecl s s' := by
  refine .get (Follows.expect.andThen (by decide) fun _ _ t t' _ _ =>
    Follows.eat.andThen (by decide) fun isStatic isStatic' u u' static _ =>
      Follows.identifier.andThen (by decide) fun id id' w w' first _ =>
        (Follows.manyWhile (v := Ident.unspanned)
          (fun _ _ within => within.isAt_not_isNext "*" (by decide))
          fun x x' _ _ => ?_).andThen (by decide) fun ids ids' x x' others _ =>
            Follows.eat.andThen (by decide) fun wildcard wildcard' y y' points _ => ?_)
  · exact Follows.take.bind (by decide) fun _ _ _ _ _ _ => Follows.identifier.last.mono
  · have names : (id :: ids).map Ident.name = (id' :: ids').map Ident.name :=
      map_name_of_unspanned (by rw [List.map_cons, List.map_cons, first, others])
    obtain rfl : isStatic = isStatic' := static
    obtain rfl : wildcard = wildcard' := points
    refine .iteSame (fun _ => ?_) fun _ => ?_
    · exact Follows.expect.andThen (by decide) fun _ _ _ _ _ _ =>
        Follows.expect.returningAt fun _ _ _ _ _ => by simp only [ImportDecl.unspanned, names]
    · exact Follows.expect.returningAt fun _ _ _ _ _ => by simp only [ImportDecl.unspanned, names]

section

variable (hg : g.Local f n)

include hg

/-! ### Variables -/

theorem follows_declaratorRest {name name' : Ident} (names : name.unspanned = name'.unspanned)
    (le : s.left ≤ n) : Follows f 1 0 Declarator.unspanned (declaratorRest g name)
      (declaratorRest g name') s s' :=
  .bindLockstep (by decide) lockstep_dims fun k k' t t' dims less => .eatIte (by decide)
    (fun u u' shorter => (follows_varInit hg (by omega)).last.returning
      fun e e' init => by simp_all [Declarator.unspanned])
    (.pure (by simp_all [Declarator.unspanned]))

theorem follows_declarator (le : s.left ≤ n) :
    Follows f 1 1 Declarator.unspanned (declarator g) (declarator g) s s' :=
  Follows.identifier.bind (by decide) fun _ _ _ _ name less =>
    follows_declaratorRest hg name (by omega)

theorem follows_varDeclRest {start start' : Nat} {ms ms' : List Modifier} {type type' : TypeRef}
    {name name' : Ident} (modifiers : ms.map Modifier.unspanned = ms'.map Modifier.unspanned)
    (types : type.unspanned = type'.unspanned) (names : name.unspanned = name'.unspanned)
    (le : s.left ≤ n) : Follows f 0 1 VarDecl.unspanned (varDeclRest g start ms type name)
      (varDeclRest g start' ms' type' name') s s' := by
  refine (follows_declaratorRest hg names le).andThen (by decide) fun d d' t t' first less =>
    (Follows.manyWhile (v := Declarator.unspanned) (fun _ _ within => within.isAt _)
      fun u u' fits _ => ?_).andThen (by decide) fun ds ds' u u' others _ =>
        Follows.expect.returningAt fun _ _ _ _ _ => ?_
  · exact Follows.take.bind (by decide) fun _ _ w w' _ shorter =>
      (follows_declarator hg (by omega)).last
  · simp [VarDecl.unspanned, modifiers, types, first, others]

/-! ### Classes -/

omit hg in
theorem lockstep_typeDeclKind : Lockstep f 1 id typeDeclKind typeDeclKind s s' :=
  .eatIte (by decide) (fun _ _ _ => .pure rfl) <| .eatIte (by decide) (fun _ _ _ => .pure rfl) <|
    .eatIte (by decide) (fun _ _ _ => .pure rfl) <| .eatIte (by decide)
      (fun _ _ _ => (Lockstep.expect (by decide)).last.bind fun _ _ _ _ _ _ => .pure rfl) .failWith

theorem lockstep_typeList (le : s.left ≤ n) :
    Lockstep f 1 (List.map TypeRef.unspanned) (typeList g) (typeList g) s s' :=
  .sepBy (by decide) fun t t' fits => lockstep_typeRef hg (by omega)

theorem lockstep_typeClause {w : String} (hw : w ≠ ";" ∧ w ≠ "\x7d") (le : s.left ≤ n) :
    Lockstep f 0 (List.map TypeRef.unspanned) (typeClause g w) (typeClause g w) s s' :=
  .eatIte hw (fun t t' less => (lockstep_typeList hg (by omega)).last) (.pure rfl)

theorem follows_enumConstant (lt : s.left < n) :
    Follows f 1 1 EnumConstant.unspanned (enumConstant g) (enumConstant g) s s' := by
  refine Follows.identifier.bind (by decide) fun id id' t t' name less =>
    .get (.ite (by decide) (fun within => within.isAt _) (fun _ => ?_) fun _ => ?_)
  · exact (follows_arguments hg (by omega)).last.bind (by decide) fun es es' u u' args shorter =>
      (follows_classBody? hg (by omega)).returning
        fun b b' body => by simp [EnumConstant.unspanned, name, args, body]
  · exact (Follows.pure (m := 1) (v := List.map Expr.unspanned) rfl).bind (by decide)
      fun es es' u u' args shorter => (follows_classBody? hg (by omega)).returning
        fun b b' body => by simp [EnumConstant.unspanned, name, args, body]

theorem follows_enumConstants (lt : s.left < n) :
    Follows f 1 0 (List.map EnumConstant.unspanned) (enumConstants g) (enumConstants g) s s' :=
  (Follows.sepEndBy (fun _ _ within => within.isAtKind _) fun t t' fits =>
    (follows_enumConstant hg (by omega)).last).bind (by decide) fun _ _ _ _ constants _ =>
      Follows.eat.returning fun _ _ _ => constants

theorem follows_typeDecl {start start' : Nat} {ms ms' : List Modifier}
    (modifiers : ms.map Modifier.unspanned = ms'.map Modifier.unspanned) (le : s.left ≤ n) :
    Follows f 0 1 TypeDecl.unspanned (typeDecl g start ms) (typeDecl g start' ms') s s' := by
  refine .bindLockstep (by decide) lockstep_typeDeclKind.last fun kind kind' t t' kinds _ => ?_
  obtain rfl : kind = kind' := kinds
  refine .bindLockstep (by decide) Lockstep.identifier.last fun id id' u u' name _ =>
    .bindLockstep (by decide) (lockstep_typeParams hg (by omega)) fun ps ps' v v' params _ =>
      .bindLockstep (by decide) (lockstep_typeClause hg (by decide) (by omega))
        fun as as' w w' supers _ => .bindLockstep (by decide)
          (lockstep_typeClause hg (by decide) (by omega)) fun bs bs' x x' interfaces _ =>
            Follows.expect.andThen (by decide) fun _ _ y y' _ less => ?_
  have body {cs cs' : List EnumConstant} {z z' : Stream} (fits : z.left < n)
      (constants : cs.map EnumConstant.unspanned = cs'.map EnumConstant.unspanned) :
      Follows f 0 1 TypeDecl.unspanned (do
        let members ← membersUntilClose g (some id.name)
        return ⟨ms, kind, id, ps, as, bs, cs, members, (← get).spanFrom start⟩) (do
        let members ← membersUntilClose g (some id'.name)
        return ⟨ms', kind, id', ps', as', bs', cs', members, (← get).spanFrom start'⟩) z z' := by
    rw [name_of_unspanned name]
    exact (follows_membersUntilClose hg _ fits).returningAt fun members members' _ _ inner => by
      simp [TypeDecl.unspanned, modifiers, name, params, supers, interfaces, constants, inner]
  refine .iteSame (fun _ => ?_) fun _ => ?_
  · exact (follows_enumConstants hg (by omega)).andThen (by decide)
      fun cs cs' z z' constants fits => body (by omega) constants
  · exact (Follows.pure (m := 0) (v := List.map EnumConstant.unspanned) rfl).bind (by decide)
      fun cs cs' z z' constants fits => body (by omega) constants

/-! ### Telling declarations from statements -/

omit hg in
theorem same_isAtTypeKeyword (h : Within f s s') : s'.isAtTypeKeyword = s.isAtTypeKeyword := by
  unfold Stream.isAtTypeKeyword
  rw [h.isAt_isNext (w := "@") "interface" (by decide), h.isAt, h.isAt, h.isAt]

omit hg in
/-- What is found behind the modifiers is found in both texts. -/
theorem foresee_bind {α : Type} {q q' : Reader α} {r r' : α → Reader Bool} {a a' : α}
    {t t' : Stream} (hq : q s = .ok (a, t)) (hq' : q' s' = .ok (a', t'))
    (same : SameRead f id (r a t) (r' a' t')) {b : Bool} (h : foresee (q >>= r) s = .ok (b, s)) :
    foresee (q' >>= r') s' = .ok (b, s') := by
  unfold foresee at h ⊢
  rw [bind_of_ok hq] at h
  rw [bind_of_ok hq']
  generalize r a t = x, r' a' t' = x' at same h
  cases same with
  | ok value _ =>
    obtain ⟨rfl, -⟩ := Prod.mk.inj (Except.ok.inj h)
    exact congrArg (fun b => Except.ok (b, s')) value.symm
  | error =>
    obtain ⟨rfl, -⟩ := Prod.mk.inj (Except.ok.inj h)
    rfl

theorem foresee_modifiers {r : Reader Bool} {ms : List Modifier} {u : Stream} {b : Bool}
    (hr : ∀ t t', t.left ≤ s.left → Lockstep f 0 id r r t t') (le : s.left ≤ n)
    (parallel : Parallel f s.ahead s'.ahead) (hms : modifiers g s = .ok (ms, u))
    (lt : f.first.length < u.left) (h : foresee (do let _ ← modifiers g; r) s = .ok (b, s)) :
    foresee (do let _ ← modifiers g; r) s' = .ok (b, s') := by
  have follows : Follows f 1 0 (List.map Modifier.unspanned) (modifiers g) (modifiers g) s s' :=
    follows_modifiers hg le
  obtain ⟨ms', u', hms', -, inner⟩ := follows.reads parallel hms lt
  have less : u.left ≤ s.left := follows.takes hms
  exact foresee_bind (q := modifiers g) hms hms' ((hr u u' less).same ⟨inner, lt⟩) h

section

variable (le : s.left ≤ n) (parallel : Parallel f s.ahead s'.ahead) {ms : List Modifier}
  {u : Stream} (hms : modifiers g s = .ok (ms, u)) (lt : f.first.length < u.left) {b : Bool}

include le parallel hms lt

theorem same_startsTypeDecl (h : startsTypeDecl g s = .ok (b, s)) :
    startsTypeDecl g s' = .ok (b, s') := by
  exact foresee_modifiers hg (fun t t' _ => .get (.pureWithin fun within =>
    (same_isAtTypeKeyword within).symm)) le parallel hms lt h

theorem same_startsLocalVar (h : startsLocalVar g s = .ok (b, s)) :
    startsLocalVar g s' = .ok (b, s') := by
  refine foresee_modifiers hg (fun t t' less => ?_) le parallel hms lt h
  exact (lockstep_typeRef hg (by omega)).last.bind fun _ _ _ _ _ _ =>
    .get (.pureWithin fun within => (within.isAtKind _).symm)

theorem same_startsMethod (h : startsMethod g s = .ok (b, s)) :
    startsMethod g s' = .ok (b, s') := by
  refine foresee_modifiers hg (fun t t' less => ?_) le parallel hms lt h
  exact (lockstep_typeParams hg (by omega)).bind fun _ _ _ _ _ _ =>
    (lockstep_typeRef hg (by omega)).last.bind fun _ _ _ _ _ _ =>
      .get (.get (.pureWithin fun within => (within.isAtKind_isNext "(" (by decide)).symm))

end

end

end SketchPrep.Syntax
