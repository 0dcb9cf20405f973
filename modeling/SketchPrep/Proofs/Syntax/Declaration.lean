import SketchPrep.Proofs.Syntax.Expression

/-!
The readers of imports, variables and classes.
-/

namespace SketchPrep.Syntax

open Phrase Reader

theorem read_packageDecl {s t : Stream} {d : PackageDecl} (h : packageDecl? s = .ok (some d, t)) :
    s.Read [.packageDecl d] t := by
  simp only [packageDecl?, get_bind, take_bind, bind_eq_ok, ite_run, ite_eq_ok, pure_eq_ok,
    Option.some.injEq, reduceCtorEq, false_and, and_false, or_false] at h
  obtain ⟨hw, name, _, hname, _, _, hclose, rfl, rfl⟩ := h
  obtain ⟨ids, hids, rfl, read⟩ := read_qualifiedName hname
  exact ((Stream.read_word hw).append (read.append (read_expect hclose))).rule (.packageDecl hids)
    trivial (by simp [span?])

theorem eq_of_packageDecl_none {s t : Stream} (h : packageDecl? s = .ok (none, t)) : t = s := by
  simp only [packageDecl?, get_bind, take_bind, bind_eq_ok, ite_run, ite_eq_ok, pure_eq_ok,
    reduceCtorEq, false_and, and_false, exists_false, false_or, true_and] at h
  exact h.2

theorem reads_importDecl : Reads importDecl fun d => [.importDecl d] := by
  intro s d t h
  simp only [importDecl, get_bind, bind_eq_ok, ite_run, ite_eq_ok, pure_eq_ok] at h
  obtain ⟨_, _, hw, isStatic, _, hstatic, first, _, hfirst, others, _, hothers, wildcard, u,
    hpoint, h⟩ := h
  have names := read_manyWhile_taking
    (fun _ hs => (Bool.and_eq_true .. ▸ hs).1) (fun _ a t _ hi => reads_identifier _ a t hi) hothers
  have front := (read_expect hw).append ((read_eat hstatic).append
    ((reads_identifier _ _ _ hfirst).append (names.append (read_eat hpoint))))
  have whole (h : u.Read (perhaps wildcard "*" ++ [.word ";"]) t) : s.Read
      [.importDecl ⟨isStatic,
        if wildcard then ".".intercalate ((first :: others).map Ident.name) ++ ".*"
        else ".".intercalate ((first :: others).map Ident.name), wildcard, t.spanFrom s.lo⟩] t := by
    refine Stream.Read.rule (.importDecl (List.cons_ne_nil first others)) ?_ trivial
      (by simp [span?])
    simpa [qualified, separated, List.flatMap_map] using front.append h
  obtain ⟨rfl, _, _, hstar, _, _, hclose, rfl, rfl⟩ | ⟨hno, _, _, hclose, rfl, rfl⟩ := h
  · exact whole ((read_expect hstar).append (read_expect hclose))
  · rw [Bool.not_eq_true] at hno
    subst hno
    exact whole (read_expect hclose)

variable {g : Grammar} (hg : g.Sound)

include hg

/-! ### Variables -/

/-- A declarator whose name has been read. -/
theorem read_declaratorRest {origin s t : Stream} {id : Ident} {d : Declarator}
    (hid : origin.Read [.name id] s) (h : declaratorRest g id s = .ok (d, t)) :
    origin.Read [.declarator d] t := by
  simp only [declaratorRest, eat_bind, bind_eq_ok, ite_eq_ok, reduceIte, Bool.false_eq_true,
    pure_eq_ok] at h
  obtain ⟨n, u, hn, ⟨hw, init, _, hinit, rfl, rfl⟩ | ⟨-, rfl, rfl⟩⟩ := h
  · have parts := hid.append ((reads_dims _ _ _ hn).append
      ((Stream.read_word hw).append (reads_varInit hg _ _ _ hinit)))
    exact Stream.Read.rule .declarator (by simpa [exprAfter] using parts) trivial (by simp [span?])
  · have parts := hid.append (reads_dims _ _ _ hn)
    exact Stream.Read.rule .declarator (by simpa [exprAfter] using parts) trivial (by simp [span?])

theorem reads_declarator : Reads (declarator g) fun d => [.declarator d] := by
  intro s d t h
  simp only [declarator, bind_eq_ok] at h
  obtain ⟨id, _, hid, h⟩ := h
  exact read_declaratorRest hg (reads_identifier _ _ _ hid) h

/-- A variable of which everything through its first name has been read. The type parameters that
a field may have are dropped. -/
theorem read_varDeclRest {origin u s t : Stream} {ms : List Modifier} {dropped : List TypeParam}
    {type : TypeRef} {id : Ident} {d : VarDecl}
    (hu : origin.Read (Phrase.modifiers ms ++ Phrase.typeParams dropped ++ [.type type]) u)
    (hid : u.Read [.name id] s) (h : varDeclRest g origin.lo ms type id s = .ok (d, t)) :
    origin.Read [.varDecl d] t := by
  simp only [varDeclRest, get_bind, bind_eq_ok, pure_eq_ok] at h
  obtain ⟨first, v, hfirst, others, _, hothers, _, _, hclose, rfl, rfl⟩ := h
  have behind := read_manyWhile_taking (fun _ hs => hs)
    (fun _ a t _ hi => reads_declarator hg _ a t hi) hothers
  have parts := hu.append ((read_declaratorRest hg hid hfirst).append
    (behind.append (read_expect hclose)))
  refine Stream.Read.rule (@Production.varDecl _ dropped _ _ _) ?_ trivial (by simp [span?])
  simpa [separated, List.flatMap_map] using parts

/-- A variable that has no type parameters. -/
theorem read_plainVarDecl {origin u v s t : Stream} {ms : List Modifier} {type : TypeRef}
    {id : Ident} {d : VarDecl} (hms : origin.Read (Phrase.modifiers ms) u)
    (htype : u.Read [.type type] v) (hid : v.Read [.name id] s)
    (h : varDeclRest g origin.lo ms type id s = .ok (d, t)) : origin.Read [.varDecl d] t :=
  @read_varDeclRest _ hg _ _ _ _ ms [] type id d
    (by simpa [Phrase.typeParams] using hms.append htype) hid h

/-! ### Classes -/

omit hg in
theorem reads_typeDeclKind : Reads typeDeclKind kindWords := by
  intro s kind t h
  simp only [typeDeclKind, eat_bind, bind_eq_ok, ite_eq_ok, reduceIte, Bool.false_eq_true,
    pure_eq_ok, failWith_eq_ok, and_false, or_false] at h
  obtain ⟨hw, rfl, rfl⟩ | ⟨-, ⟨hw, rfl, rfl⟩ | ⟨-, ⟨hw, rfl, rfl⟩ |
    ⟨-, hw, _, _, hi, rfl, rfl⟩⟩⟩ := h
  · exact Stream.read_word hw
  · exact Stream.read_word hw
  · exact Stream.read_word hw
  · exact (Stream.read_word hw).append (read_expect hi)

theorem reads_typeList : Reads (typeList g) fun ts => types "," ts := reads_sepBy (reads_typeRef hg)

theorem reads_typeClause (w : String) : Reads (typeClause g w) fun ts => clause w ts := by
  intro s ts t h
  simp only [typeClause, eat_bind, ite_eq_ok, reduceIte, Bool.false_eq_true, pure_eq_ok] at h
  obtain ⟨hw, h⟩ | ⟨-, rfl, rfl⟩ := h
  · cases ts with
    | nil => exact absurd rfl (ne_nil_of_sepBy h)
    | cons => exact (Stream.read_word hw).append (reads_typeList hg _ _ _ h)
  · exact .nil _

theorem reads_enumConstant : Reads (enumConstant g) fun c => [.enumConstant c] := by
  intro s c t h
  simp only [enumConstant, get_bind, bind_eq_ok, ite_run, ite_eq_ok, pure_eq_ok] at h
  obtain ⟨id, _, hid, ⟨-, args, _, hargs, body, _, hbody, rfl, rfl⟩ |
    ⟨-, _, _, ⟨rfl, rfl⟩, body, _, hbody, rfl, rfl⟩⟩ := h
  · have parts := (reads_identifier _ _ _ hid).append ((reads_arguments hg _ _ _ hargs).append
      (reads_classBody hg _ _ _ hbody))
    exact Stream.Read.rule .enumConstantWithArgs (by simpa using parts) trivial (by simp [span?])
  · have parts := (reads_identifier _ _ _ hid).append (reads_classBody hg _ _ _ hbody)
    exact parts.rule .enumConstant trivial (by simp [span?])

theorem read_enumConstants {s t : Stream} {cs : List EnumConstant}
    (h : enumConstants g s = .ok (cs, t)) : ∃ comma semicolon,
      s.Read (separated "," (cs.map .enumConstant) ++ perhaps comma "," ++
        perhaps semicolon ";") t := by
  simp only [enumConstants, bind_eq_ok, pure_eq_ok] at h
  obtain ⟨constants, _, hconstants, semicolon, _, heat, rfl, rfl⟩ := h
  obtain ⟨comma, -, list⟩ := read_sepEndBy (reads_enumConstant hg) hconstants
  exact ⟨comma, semicolon, list.append (read_eat heat)⟩

/-- A class whose modifiers have been read. -/
theorem read_typeDecl {origin s t : Stream} {ms : List Modifier} {d : TypeDecl}
    (hs : origin.Read (Phrase.modifiers ms) s) (h : typeDecl g origin.lo ms s = .ok (d, t)) :
    origin.Read [.typeDecl d] t := by
  simp only [typeDecl, get_bind, bind_eq_ok, ite_run, ite_eq_ok, pure_eq_ok] at h
  obtain ⟨kind, _, hkind, id, _, hid, params, _, hparams, superTypes, _, hsuper, interfaces, _,
    hinterfaces, _, u, hopen, h⟩ := h
  have front := hs.append ((reads_typeDeclKind _ _ _ hkind).append
    ((reads_identifier _ _ _ hid).append ((reads_typeParams hg _ _ _ hparams).append
      ((reads_typeClause hg _ _ _ _ hsuper).append ((reads_typeClause hg _ _ _ _ hinterfaces).append
        (read_expect hopen))))))
  have whole {constants : List EnumConstant} {comma semicolon : Bool} {members : List Member}
      (hkind : kind = .enumType ∨ constants = [] ∧ comma = false)
      (h : u.Read (separated "," (constants.map .enumConstant) ++ perhaps comma "," ++
        perhaps semicolon ";" ++ (members.map .member ++ [.word "\x7d"])) t) :
      origin.Read [.typeDecl ⟨ms, kind, id, params, superTypes, interfaces, constants, members,
        t.spanFrom origin.lo⟩] t := by
    have parts := front.append h
    refine Stream.Read.rule (@Production.typeDecl _ _ _ _ _ _ _ comma semicolon _ _ hkind) ?_
      trivial (by simp [span?])
    simpa using parts
  obtain ⟨hkind, constants, _, hconstants, members, _, hmembers, rfl, rfl⟩ |
    ⟨-, _, _, ⟨rfl, rfl⟩, members, _, hmembers, rfl, rfl⟩ := h
  · obtain ⟨comma, semicolon, list⟩ := read_enumConstants hg hconstants
    exact whole (.inl hkind) (list.append (reads_membersUntilClose hg _ _ _ _ hmembers))
  · exact @whole [] false false members (.inr ⟨rfl, rfl⟩) (reads_membersUntilClose hg _ _ _ _ hmembers)

end SketchPrep.Syntax
