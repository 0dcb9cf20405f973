import SketchPrep.Proofs.Syntax.Reading

/-!
The readers of names, types, type parameters, modifiers and parameters.
-/

namespace SketchPrep.Syntax

open Phrase Reader

/-- The readers of nested parts take the tokens that their trees are written with, and operators as
long as they are tight enough. -/
structure Grammar.Sound (g : Grammar) : Prop where
  type : Reads g.type fun t => [.type t]
  unary : Reads g.unary fun e => [.expr e]
  binary : ∀ n, Reads (g.binary n) fun e => [.expr e]
  climbs : ∀ n s e t, g.binary n s = .ok (e, t) → e.Climbed n t
  conditional : Reads g.conditional fun e => [.expr e]
  expr : Reads g.expr fun e => [.expr e]
  varInit : Reads g.varInit fun e => [.expr e]
  block : Reads g.block fun b => [.block b]
  statement : Reads g.statement fun s => [.stmt s]
  blockStatement : Reads g.blockStatement fun s => [.stmt s]
  member : ∀ className, Reads (g.member className) fun m => [.member m]

theorem Grammar.sound_nothing : Grammar.nothing.Sound where
  type _ _ _ h := by cases h
  unary _ _ _ h := by cases h
  binary _ _ _ _ h := by cases h
  climbs _ _ _ _ h := by cases h
  conditional _ _ _ h := by cases h
  expr _ _ _ h := by cases h
  varInit _ _ _ h := by cases h
  block _ _ _ h := by cases h
  statement _ _ _ h := by cases h
  blockStatement _ _ _ h := by cases h
  member _ _ _ _ h := by cases h

theorem reads_dims : Reads dims fun n => brackets n := by
  intro s n t h
  simp only [dims, bind_eq_ok, pure_eq_ok] at h
  obtain ⟨pairs, _, hpairs, rfl, rfl⟩ := h
  have read : s.Read (pairs.flatMap fun _ => [.word "[", .word "]"]) t := by
    refine read_manyWhile (fun s a t hs hi => ?_) hpairs
    simp only [Bool.and_eq_true] at hs
    rw [take_bind] at hi
    cases hi
    have second := Stream.isAt_advance (Stream.not_atEnd_of_isAt hs.1) hs.2
    exact (Stream.read_word hs.1).append (Stream.read_word second)
  simpa [brackets, List.flatMap_def, List.map_const'] using read

theorem Stream.isAtKind_advance {s : Stream} (h : s.continuesName) :
    s.isAt "." ∧ s.advance.isAtKind .identifier := by
  simp only [Stream.continuesName, Bool.and_eq_true, decide_eq_true_eq] at h
  refine ⟨h.1, ?_⟩
  rw [Stream.isAtKind, Stream.current_advance (Stream.not_atEnd_of_isAt h.1), h.2]
  rfl

/-- The name is made of identifiers. -/
theorem read_qualifiedName {s t : Stream} {name : String} (h : qualifiedName s = .ok (name, t)) :
    ∃ ids, ids ≠ [] ∧ name = ".".intercalate (ids.map Ident.name) ∧ s.Read (qualified ids) t := by
  simp only [qualifiedName, bind_eq_ok, pure_eq_ok] at h
  obtain ⟨first, u, hfirst, others, _, hothers, rfl, rfl⟩ := h
  refine ⟨first :: others, by simp, rfl, ?_⟩
  have behind : u.Read (others.flatMap fun id => [.word ".", .name id]) t := by
    refine read_manyWhile_taking (fun _ hs => (Stream.isAtKind_advance hs).1) ?_ hothers
    intro s a t hs hi
    obtain ⟨rfl, rfl⟩ := takeIdent_eq_ok.1 hi
    exact Stream.read_name (Stream.isAtKind_advance hs).2
  simpa [qualified, separated, List.flatMap_map] using
    (reads_identifier _ _ _ hfirst).append behind

variable {g : Grammar} (hg : g.Sound)

include hg

theorem reads_typeArgs :
    Reads (typeArgs g) fun args => .word "<" :: types "," args ++ [.word ">"] := by
  intro s args t h
  simp only [typeArgs, bind_eq_ok, eat_bind, ite_eq_ok, reduceIte, Bool.false_eq_true,
    pure_eq_ok] at h
  obtain ⟨_, u, hopen, ⟨hclose, rfl, rfl⟩ | ⟨-, _, v, hargs, _, _, hclose, rfl, rfl⟩⟩ := h
  · exact (read_expect hopen).append (Stream.read_word hclose)
  · exact (read_expect hopen).append
      ((reads_sepBy hg.type _ _ _ hargs).append (read_expect hclose))

theorem read_typeSegment {s t : Stream} {a : TypeSegment} (hs : s.isAtKind .identifier)
    (h : typeSegment g s = .ok (a, t)) : s.Read [.segment a] t := by
  have name := Stream.read_name hs
  simp only [typeSegment, takeIdent_bind, get_bind, bind_eq_ok, ite_run, ite_eq_ok,
    pure_eq_ok] at h
  obtain ⟨-, args, _, hargs, rfl, rfl⟩ | ⟨-, rfl, rfl⟩ := h
  · exact (name.append (reads_typeArgs hg _ _ _ hargs)).rule .segmentWithArgs trivial
      (by simp [span?])
  · exact name.rule .segment trivial (by simp [span?])

theorem read_namedType {s t : Stream} {kind : TypeKind} (hs : s.isAtKind .identifier)
    (h : namedType g s = .ok (kind, t)) : s.Read [.typeKind kind] t := by
  simp only [namedType, bind_eq_ok, pure_eq_ok] at h
  obtain ⟨first, u, hfirst, others, _, hothers, rfl, rfl⟩ := h
  have behind : u.Read (others.flatMap fun a => [.word ".", .segment a]) t :=
    read_manyWhile_taking (fun _ hs => (Stream.isAtKind_advance hs).1)
      (fun _ _ _ hs hi => read_typeSegment hg (Stream.isAtKind_advance hs).2 hi) hothers
  refine Stream.Read.rule (.named (List.cons_ne_nil first others)) ?_ trivial (by simp [span?])
  simpa [separated, List.flatMap_map] using (read_typeSegment hg hs hfirst).append behind

theorem read_wildcardType {s u t : Stream} {kind : TypeKind} (hs : u.Read [.word "?"] s)
    (h : wildcardType g s = .ok (kind, t)) : u.Read [.typeKind kind] t := by
  simp only [wildcardType, get_bind, take_bind, bind_eq_ok, ite_run, ite_eq_ok, pure_eq_ok,
    Bool.or_eq_true] at h
  obtain ⟨hw, bound, _, hbound, rfl, rfl⟩ | ⟨-, rfl, rfl⟩ := h
  · have behind := hg.type _ _ _ hbound
    rcases hw with hw | hw
    · exact (hs.append ((Stream.read_word hw).append behind)).rule (.boundedType (.inl rfl)) trivial
        (by simp [span?])
    · exact (hs.append ((Stream.read_word hw).append behind)).rule (.boundedType (.inr rfl)) trivial
        (by simp [span?])
  · exact hs.rule .anyType trivial (by simp [span?])

theorem reads_typeKind : Reads (typeKind g) fun kind => [.typeKind kind] := by
  intro s kind t h
  simp only [typeKind, get_bind, takeIdent_bind, eat_bind, ite_run, ite_eq_ok, pure_eq_ok,
    failWith_eq_ok, reduceIte, Bool.false_eq_true, and_false, or_false, false_or] at h
  obtain ⟨hprim, -, rfl, rfl⟩ | ⟨-, ⟨hq, h⟩ | ⟨-, hid, h⟩⟩ := h
  · refine Stream.read_rule_token ?_ (.primitive hprim) trivial (by simp [span?])
    rcases Bool.or_eq_true .. ▸ hprim with hprim | hvoid
    · exact Stream.not_atEnd_of_isPrimitiveType hprim
    · exact Stream.not_atEnd_of_isAt hvoid
  · exact read_wildcardType hg (Stream.read_word hq) h
  · exact read_namedType hg hid h

theorem reads_elementType : Reads (elementType g) fun a => [.type a] := by
  intro s a t h
  simp only [elementType, get_bind, bind_eq_ok, pure_eq_ok] at h
  obtain ⟨kind, _, hkind, rfl, rfl⟩ := h
  refine Stream.Read.rule .type ?_ trivial (by simp [span?])
  simpa [brackets] using reads_typeKind hg _ _ _ hkind

theorem reads_typeRef : Reads (typeRef g) fun a => [.type a] := by
  intro s a t h
  simp only [typeRef, elementType, get_bind, bind_eq_ok, pure_eq_ok] at h
  obtain ⟨_, _, ⟨kind, u, hkind, rfl, rfl⟩, n, _, hdims, rfl, rfl⟩ := h
  exact ((reads_typeKind hg _ _ _ hkind).append (reads_dims _ _ _ hdims)).rule .type trivial
    (by simp [span?, Stream.spanFrom])

theorem reads_typeParam : Reads (typeParam g) fun p => [.typeParam p] := by
  intro s p t h
  simp only [typeParam, bind_eq_ok, eat_bind, ite_eq_ok, reduceIte, Bool.false_eq_true,
    pure_eq_ok] at h
  obtain ⟨id, u, hid, ⟨hw, bounds, _, hbounds, rfl, rfl⟩ | ⟨-, rfl, rfl⟩⟩ := h
  · refine Stream.Read.rule .typeParam ?_ trivial (by simp [span?])
    cases bounds with
    | nil => exact absurd rfl (ne_nil_of_sepBy hbounds)
    | cons b bs =>
      exact (reads_identifier _ _ _ hid).append ((Stream.read_word hw).append
        (reads_sepBy (reads_typeRef hg) _ _ _ hbounds))
  · exact Stream.Read.rule .typeParam (reads_identifier _ _ _ hid) trivial (by simp [span?])

theorem reads_typeParams : Reads (typeParams g) fun ps => Phrase.typeParams ps := by
  intro s ps t h
  simp only [typeParams, eat_bind, bind_eq_ok, ite_eq_ok, reduceIte, Bool.false_eq_true,
    pure_eq_ok] at h
  obtain ⟨hopen, params, u, hparams, _, _, hclose, rfl, rfl⟩ | ⟨-, rfl, rfl⟩ := h
  · cases ps with
    | nil => exact absurd rfl (ne_nil_of_sepBy hparams)
    | cons p ps =>
      exact (Stream.read_word hopen).append
        ((reads_sepBy (reads_typeParam hg) _ _ _ hparams).append (read_expect hclose))
  · exact .nil _

theorem reads_marker : Reads (marker g) fun a => [.marker a] := by
  intro s a t h
  simp only [marker, get_bind, bind_eq_ok, eat_bind, ite_eq_ok, reduceIte, Bool.false_eq_true,
    pure_eq_ok] at h
  obtain ⟨_, u, hat, name, v, hname, h⟩ := h
  obtain ⟨ids, hids, rfl, read⟩ := read_qualifiedName hname
  have front := (read_expect hat).append read
  obtain ⟨hopen, args, _, hargs, rfl, rfl⟩ | ⟨-, _, _, ⟨rfl, rfl⟩, rfl, rfl⟩ := h
  · exact (front.append ((Stream.read_word hopen).append
      (reads_closeList hg.varInit _ _ _ hargs))).rule (.markerWithArgs hids) trivial
      (by simp [span?])
  · exact front.rule (.marker hids) trivial (by simp [span?])

theorem read_modifier {s t : Stream} {m : Modifier} (hs : s.isAtMarker || s.isAtModifier)
    (h : modifier g s = .ok (m, t)) : s.Read [.modifier m] t := by
  simp only [modifier, get_bind, takeIdent_bind, bind_eq_ok, ite_run, ite_eq_ok, pure_eq_ok] at h
  obtain ⟨-, a, _, ha, rfl, rfl⟩ | ⟨hno, rfl, rfl⟩ := h
  · have read := reads_marker hg _ _ _ ha
    exact read.rule .markerModifier trivial fun _ hspan => read.span hspan
  · simp only [hno, Bool.false_or, Stream.isAtModifier, Bool.and_eq_true] at hs
    obtain ⟨hkw, hword⟩ := hs
    have listed : s.current.text ∈ "synchronized" :: "default" :: modifierKeywords := by
      simp only [Stream.isAt, Token.is] at hword
      grind
    refine Stream.read_rule_token (Stream.not_atEnd_of_isAtKind hkw (by simp))
      (.keywordModifier (by simpa [Stream.isAtKind] using hkw) listed) trivial
      (by simp [span?, Modifier.span, Ident.ofToken])

theorem reads_modifiers : Reads (modifiers g) fun ms => Phrase.modifiers ms := by
  intro s ms t h
  have read := read_manyWhile (fun s m t hs hm => read_modifier hg hs hm) h
  simpa [Phrase.modifiers, List.map_eq_flatMap] using read

theorem reads_paramParts : Reads (param g) paramParts := by
  intro s p t h
  simp only [param, bind_eq_ok, pure_eq_ok] at h
  obtain ⟨ms, _, hms, type, _, htype, varargs, _, hvarargs, name, _, hname, n, _, hdims, rfl,
    rfl⟩ := h
  have parts := (reads_modifiers hg _ _ _ hms).append ((reads_typeRef hg _ _ _ htype).append
    ((read_eat hvarargs).append ((reads_identifier _ _ _ hname).append (reads_dims _ _ _ hdims))))
  simpa [paramParts] using parts

theorem reads_param : Reads (param g) fun p => [.param p] := by
  intro s p t h
  exact (reads_paramParts hg _ _ _ h).rule .param trivial (by simp [span?])

end SketchPrep.Syntax
