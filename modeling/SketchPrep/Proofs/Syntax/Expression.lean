import SketchPrep.Proofs.Syntax.Operand
import SketchPrep.Proofs.Syntax.Operator
import SketchPrep.Proofs.Syntax.Types

/-!
The readers of expressions. A loop of selectors or operators keeps one invariant: what has been
read since the expression began is the expression so far. For operators `Climbs` is part of it.
-/

namespace SketchPrep.Syntax

open Phrase Reader

theorem Stream.Read.expr_span {s t : Stream} {e : Expr} (h : s.Read [.expr e] t) :
    e.span = t.spanFrom s.lo := h.span rfl

variable {g : Grammar} (hg : g.Sound)

include hg

/-! ### Lambdas -/

theorem reads_lambdaParam : Reads (lambdaParam g) fun p => [.lambdaParam p] := by
  intro s p t h
  simp only [lambdaParam, get_bind, takeIdent_bind, bind_eq_ok, ite_run, ite_eq_ok, pure_eq_ok,
    Bool.and_eq_true] at h
  obtain ⟨hs, rfl, rfl⟩ | ⟨-, p, _, hp, rfl, rfl⟩ := h
  · exact (Stream.read_name hs.1).rule .lambdaName trivial (by simp [span?])
  · exact (reads_paramParts hg _ _ _ hp).rule .lambdaParam trivial (by simp [span?])

theorem read_lambdaRest {s t : Stream} {start : Nat} {params : List LambdaParam} {e : Expr}
    (h : lambdaRest g start params s = .ok (e, t)) :
    ∃ body, e = ⟨.lambda params body, t.spanFrom start⟩ ∧
      s.Read [.word "->", .lambdaBody body] t := by
  simp only [lambdaRest, get_bind, bind_eq_ok, map_eq_ok, ite_run, ite_eq_ok, pure_eq_ok] at h
  obtain ⟨_, u, harrow, ⟨-, _, _, ⟨b, hb, rfl⟩, rfl, rfl⟩ | ⟨-, _, _, ⟨e, he, rfl⟩, rfl, rfl⟩⟩ := h
  · refine ⟨_, rfl, (read_expect harrow).append ?_⟩
    exact (hg.block _ _ _ hb).rule .lambdaBlock trivial (by simp [span?])
  · refine ⟨_, rfl, (read_expect harrow).append ?_⟩
    exact (hg.expr _ _ _ he).rule .lambdaExpr trivial (by simp [span?])

theorem read_lambda {s t : Stream} {e : Expr} (h : lambda? g s = .ok (some e, t)) :
    s.Read [.expr e] t := by
  simp only [lambda?, get_bind, take_bind, takeIdent_bind, bind_eq_ok, ite_run, ite_eq_ok,
    pure_eq_ok, Bool.and_eq_true, Option.some.injEq, reduceCtorEq, false_and, and_false,
    or_false] at h
  obtain ⟨hs, _, _, h, rfl, rfl⟩ | ⟨-, ⟨hopen, -⟩, params, _, hparams, _, _, hclose, _, _, h, rfl,
    rfl⟩ := h
  · obtain ⟨body, rfl, read⟩ := read_lambdaRest hg h
    exact ((Stream.read_name hs.1).append read).rule .plainLambda trivial (by simp [span?])
  · obtain ⟨body, rfl, read⟩ := read_lambdaRest hg h
    obtain ⟨comma, -, list⟩ := read_sepEndBy (reads_lambdaParam hg) hparams
    have parts := (Stream.read_word hopen).append (list.append ((read_expect hclose).append read))
    simp only [List.cons_append, List.nil_append, ← List.append_assoc] at parts
    exact parts.rule .lambda trivial (by simp [span?])

omit hg in
theorem eq_of_lambda_none {s t : Stream} (h : lambda? g s = .ok (none, t)) : t = s := by
  simp only [lambda?, get_bind, take_bind, takeIdent_bind, bind_eq_ok, ite_run, ite_eq_ok,
    pure_eq_ok, reduceCtorEq, false_and, and_false, exists_false, false_or, true_and] at h
  exact h.2.2

/-! ### Operands -/

theorem reads_arrayInit : Reads (arrayInit g) fun e => [.expr e] := by
  intro s e t h
  simp only [arrayInit, get_bind, bind_eq_ok, pure_eq_ok] at h
  obtain ⟨_, _, hopen, elements, _, helements, _, _, hclose, rfl, rfl⟩ := h
  obtain ⟨comma, -, list⟩ := read_sepEndBy hg.varInit helements
  have parts := (read_expect hopen).append (list.append (read_expect hclose))
  simp only [List.cons_append, List.nil_append, ← List.append_assoc] at parts
  exact parts.rule .arrayInit trivial (by simp [span?])

omit hg in
theorem kind_of_arrayInit {s t : Stream} {e : Expr} (h : arrayInit g s = .ok (e, t)) :
    ∃ elements, e.kind = .arrayInit elements := by
  simp only [arrayInit, get_bind, bind_eq_ok, pure_eq_ok] at h
  obtain ⟨_, _, -, elements, _, -, _, _, -, rfl, -⟩ := h
  exact ⟨elements, rfl⟩

theorem reads_arguments : Reads (arguments g) fun args => Phrase.arguments args :=
  reads_parenList hg.expr

theorem read_call {s t : Stream} {target : Option Expr} {name : Ident} {start : Nat} {e : Expr}
    (h : call g target name start s = .ok (e, t)) :
    ∃ args, e = ⟨.call target name args, t.spanFrom start⟩ ∧ s.Read (Phrase.arguments args) t := by
  simp only [call, get_bind, bind_eq_ok, pure_eq_ok] at h
  obtain ⟨args, _, hargs, rfl, rfl⟩ := h
  exact ⟨args, rfl, reads_arguments hg _ _ _ hargs⟩

theorem reads_membersUntilClose (className : Option String) :
    Reads (membersUntilClose g className) fun ms => ms.map .member ++ [.word "\x7d"] := by
  intro s ms t h
  simp only [membersUntilClose, bind_eq_ok, pure_eq_ok] at h
  obtain ⟨members, _, hmembers, _, _, hclose, rfl, rfl⟩ := h
  exact (reads_manyWhile (hg.member className) _ _ _ hmembers).append (read_expect hclose)

theorem reads_classBody : Reads (classBody? g) fun body => Phrase.classBody body := by
  intro s body t h
  simp only [classBody?, eat_bind, bind_eq_ok, ite_eq_ok, reduceIte, Bool.false_eq_true,
    pure_eq_ok] at h
  obtain ⟨hopen, members, _, hmembers, rfl, rfl⟩ | ⟨-, rfl, rfl⟩ := h
  · exact (Stream.read_word hopen).append (reads_membersUntilClose hg _ _ _ _ hmembers)
  · exact .nil _

theorem read_arraySize {s t : Stream} {e : Expr} (hs : s.isAt "[")
    (h : arraySize g s = .ok (e, t)) : s.Read [.word "[", .expr e, .word "]"] t := by
  simp only [arraySize, take_bind, bind_eq_ok, pure_eq_ok] at h
  obtain ⟨size, _, hsize, _, _, hclose, rfl, rfl⟩ := h
  exact (Stream.read_word hs).append ((hg.expr _ _ _ hsize).append (read_expect hclose))

theorem read_arrayRest {s t origin : Stream} {type : TypeRef} {e : Expr}
    (hs : origin.Read [.word "new", .type type] s)
    (h : arrayRest g origin.lo type s = .ok (e, t)) : origin.Read [.expr e] t := by
  simp only [arrayRest, get_bind, bind_eq_ok, map_eq_ok, ite_run, ite_eq_ok, pure_eq_ok] at h
  obtain ⟨sizes, u, hsizes, extra, v, hextra, h⟩ := h
  have front : s.Read (sizes.flatMap fun e => [.word "[", .expr e, .word "]"]) u := by
    refine read_manyWhile (fun s e t hs he => ?_) hsizes
    simp only [Bool.and_eq_true] at hs
    exact read_arraySize hg hs.1 he
  have dims := reads_dims _ _ _ hextra
  obtain ⟨-, _, _, ⟨init, hinit, rfl⟩, rfl, rfl⟩ | ⟨-, _, _, ⟨rfl, rfl⟩, rfl, rfl⟩ := h
  · refine Stream.Read.rule (.createArray fun e he => ?_) ?_ trivial (by simp [span?])
    · obtain rfl := Option.some.inj he
      exact kind_of_arrayInit hinit
    simpa [exprOrNothing] using
      hs.append (front.append (dims.append (reads_arrayInit hg _ _ _ hinit)))
  · refine Stream.Read.rule (.createArray (by simp)) ?_ trivial (by simp [span?])
    simpa [exprOrNothing] using hs.append (front.append dims)

theorem reads_creation : Reads (creation g) fun e => [.expr e] := by
  intro s e t h
  simp only [creation, get_bind, bind_eq_ok, ite_run, ite_eq_ok, pure_eq_ok] at h
  obtain ⟨_, _, hnew, type, u, htype, h⟩ := h
  have front := (read_expect hnew).append (reads_elementType hg _ _ _ htype)
  obtain ⟨-, h⟩ | ⟨-, args, _, hargs, body, _, hbody, rfl, rfl⟩ := h
  · exact read_arrayRest hg front h
  · refine Stream.Read.rule .create ?_ trivial (by simp [span?])
    simpa using front.append ((reads_arguments hg _ _ _ hargs).append
      (reads_classBody hg _ _ _ hbody))

omit hg in
theorem read_literal {s t : Stream} {kind : LiteralKind} {e : Expr}
    (hs : literalKind? s.current = some kind) (h : literal kind s = .ok (e, t)) :
    s.Read [.expr e] t := by
  simp only [literal, take_bind, pure_eq_ok] at h
  obtain ⟨rfl, rfl⟩ := h
  refine Stream.read_rule_token ?_ (.literal hs) trivial (by simp [span?])
  intro hend
  have := Stream.current_isEnd hend
  simp_all [literalKind?, Token.isEnd]

/-- A token that names a call if arguments follow it. -/
theorem read_nameOrCall {s t : Stream} {plain : Ident → ExprKind} {e : Expr}
    (hs : isCallName s.current) (hend : ¬s.atEnd)
    (hplain : ¬s.advance.isAt "(" →
      s.Read [.expr ⟨plain (.ofToken s.current), s.current.span⟩] s.advance)
    (h : nameOrCall g plain s = .ok (e, t)) : s.Read [.expr e] t := by
  simp only [nameOrCall, takeIdent_bind, get_bind, ite_run, ite_eq_ok, pure_eq_ok] at h
  obtain ⟨-, h⟩ | ⟨hno, rfl, rfl⟩ := h
  · obtain ⟨args, rfl, read⟩ := read_call hg h
    have name : s.Read [.callName (.ofToken s.current)] s.advance :=
      Stream.read_rule_token hend (.callName hs) trivial (by simp [span?, Ident.ofToken])
    exact (name.append read).rule .call trivial
      (by simp [span?, Ident.ofToken, Token.span, Stream.lo])
  · exact hplain hno

theorem reads_classLiteral : Reads (classLiteral g) fun e => [.expr e] := by
  intro s e t h
  simp only [classLiteral, takeMany, get_bind, take_bind, bind_eq_ok, ite_run, ite_eq_ok,
    pure_eq_ok, failWith_eq_ok, and_false, or_false, Bool.and_eq_true] at h
  obtain ⟨type, u, htype, ⟨hpoint, hclass⟩, _, _, ⟨-, rfl⟩, rfl, rfl⟩ := h
  have second := Stream.isAt_advance (Stream.not_atEnd_of_isAt hpoint) hclass
  exact ((reads_typeRef hg _ _ _ htype).append ((Stream.read_word hpoint).append
    (Stream.read_word second))).rule .classLiteral trivial (by simp [span?])

theorem read_keywordOperand {s t : Stream} {e : Expr} (hs : s.isAtKind .keyword)
    (h : keywordOperand g s = .ok (e, t)) : s.Read [.expr e] t := by
  have hkind : s.current.kind = .keyword := by simpa [Stream.isAtKind] using hs
  have hend := Stream.not_atEnd_of_isAtKind hs (by simp)
  have spelled {w : String} (hw : s.current.text = w) : s.isAt w := by
    simp [Stream.isAt, Token.is, hkind, hw]
  simp only [keywordOperand, get_bind] at h
  generalize hw : s.current.text = w at h
  split at h
  · exact read_literal (by simp [literalKind?, hkind, hw]) h
  · exact read_literal (by simp [literalKind?, hkind, hw]) h
  · exact read_literal (by simp [literalKind?, hkind, hw]) h
  · have hthis := spelled hw
    refine read_nameOrCall hg ?_ hend (fun _ => ?_) h
    · simp [isCallName, Stream.isAt] at hthis ⊢
      simp [hthis]
    · exact (Stream.read_word hthis).rule .thisRef trivial
        (by simp [span?, Stream.spanFrom_advance hend])
  · have hsuper := spelled hw
    refine read_nameOrCall hg ?_ hend (fun _ => ?_) h
    · simp [isCallName, Stream.isAt] at hsuper ⊢
      simp [hsuper]
    · exact (Stream.read_word hsuper).rule .superRef trivial
        (by simp [span?, Stream.spanFrom_advance hend])
  · exact reads_creation hg _ _ _ h
  · simp only [ite_run, ite_eq_ok, failWith_eq_ok, and_false, or_false] at h
    obtain ⟨hc, h⟩ | ⟨-, -, h⟩ := h
    · simp only [Bool.and_eq_true, List.contains_iff_mem] at hc
      refine read_nameOrCall hg ?_ hend (fun hno => absurd (Stream.isAt_advance hend hc.2) hno) h
      have hin : Syntax.conversions.any s.current.is :=
        List.any_eq_true.2 ⟨_, hc.1, spelled hw⟩
      simp [isCallName, hin]
    · exact reads_classLiteral hg _ _ _ h

theorem reads_parenthesized : Reads (parenthesized g) fun e => [.expr e] := by
  intro s e t h
  simp only [parenthesized, get_bind, bind_eq_ok, pure_eq_ok] at h
  obtain ⟨_, _, hopen, inner, _, hinner, _, _, hclose, rfl, rfl⟩ := h
  exact ((read_expect hopen).append ((hg.expr _ _ _ hinner).append (read_expect hclose))).rule
    .paren trivial (by simp [span?])

theorem reads_primary : Reads (primary g) fun e => [.expr e] := by
  intro s e t h
  simp only [primary, get_bind] at h
  generalize hk : s.current.kind = k at h
  have kind (h : k ≠ .endOfInput) : ¬s.atEnd :=
    Stream.not_atEnd_of_isAtKind (k := k) (by simp [Stream.isAtKind, hk]) h
  cases k with
  | intLiteral => exact read_literal (by simp [literalKind?, hk]) h
  | floatLiteral => exact read_literal (by simp [literalKind?, hk]) h
  | hexColor => exact read_literal (by simp [literalKind?, hk]) h
  | charLiteral => exact read_literal (by simp [literalKind?, hk]) h
  | stringLiteral => exact read_literal (by simp [literalKind?, hk]) h
  | textBlock => exact read_literal (by simp [literalKind?, hk]) h
  | identifier =>
    have name := Stream.read_name (s := s) (by simp [Stream.isAtKind, hk])
    refine read_nameOrCall hg (by simp [isCallName, hk]) (kind (by simp)) (fun _ => ?_) h
    exact name.rule .variable trivial (by simp [span?, Stream.spanFrom_advance (kind (by simp))])
  | keyword => exact read_keywordOperand hg (by simp [Stream.isAtKind, hk]) h
  | punctuation =>
    simp only [ite_run, ite_eq_ok, failWith_eq_ok, and_false, or_false] at h
    exact reads_parenthesized hg _ _ _ h.2
  | endOfInput => exact (failWith_eq_ok.1 h).elim

/-! ### Selectors -/

omit hg in
theorem read_selectedName {s t : Stream} {id : Ident} (h : selectedName s = .ok (id, t)) :
    ∃ a, isSelected a ∧ id = .ofToken a ∧ s.Read [.token a] t := by
  simp only [selectedName, get_bind, ite_run, ite_eq_ok] at h
  obtain ⟨hw, h⟩ | ⟨-, h⟩ := h
  · obtain ⟨rfl, rfl⟩ := takeIdent_eq_ok.1 h
    obtain ⟨w, -, hw'⟩ := List.any_eq_true.1 hw
    exact ⟨s.current, by simp only [isSelected, Bool.or_eq_true]; exact .inr hw, rfl,
      Stream.read_token (Stream.not_atEnd_of_isAt hw')⟩
  · obtain ⟨hid, rfl, rfl⟩ := identifier_eq_ok.1 h
    exact ⟨s.current, by simp [isSelected, Stream.kind_of_isAtKind hid], rfl,
      Stream.read_token (Stream.not_atEnd_of_isAtKind hid (by simp))⟩

/-- An operand that has been read goes on with a selection. -/
theorem read_selection {origin s t : Stream} {e b : Expr} (he : origin.Read [.expr e, .word "."] s)
    (hlo : e.span.lo = origin.lo) (h : selection g e s = .ok (b, t)) : origin.Read [.expr b] t := by
  simp only [selection, get_bind, bind_eq_ok, ite_run, ite_eq_ok, pure_eq_ok] at h
  have named {dropped : List TypeParam} {u : Stream} (hu : s.Read (Phrase.typeParams dropped) u)
      (h : ∃ name v, selectedName u = .ok (name, v) ∧
        (v.isAt "(" ∧ call g (some e) name e.span.lo v = .ok (b, t) ∨
          ¬v.isAt "(" ∧ b = ⟨.field e name, v.spanFrom e.span.lo⟩ ∧ t = v)) :
      origin.Read [.expr b] t := by
    obtain ⟨name, v, hname, h⟩ := h
    obtain ⟨a, ha, rfl, token⟩ := read_selectedName hname
    have front := he.append (hu.append token)
    obtain ⟨-, h⟩ | ⟨-, rfl, rfl⟩ := h
    · obtain ⟨args, rfl, read⟩ := read_call hg h
      have parts := front.append read
      simp only [List.cons_append, List.nil_append, List.append_assoc] at parts
      exact Stream.Read.rule (.callOf ha) (by simpa using parts) trivial (by simp [span?, hlo])
    · exact Stream.Read.rule (.field ha) (by simpa using front) trivial (by simp [span?, hlo])
  obtain ⟨-, dropped, u, hdropped, h⟩ | ⟨-, h⟩ := h
  · exact named (reads_typeParams hg _ _ _ hdropped) h
  · exact @named [] s (.nil s) h

theorem read_indexing {origin s t : Stream} {e b : Expr} (he : origin.Read [.expr e, .word "["] s)
    (hlo : e.span.lo = origin.lo) (h : indexing g e s = .ok (b, t)) : origin.Read [.expr b] t := by
  simp only [indexing, get_bind, bind_eq_ok, pure_eq_ok] at h
  obtain ⟨position, _, hposition, _, _, hclose, rfl, rfl⟩ := h
  exact (he.append ((hg.expr _ _ _ hposition).append (read_expect hclose))).rule .index trivial
    (by simp [span?, hlo])

omit hg in
theorem read_methodReference {origin s t : Stream} {e b : Expr}
    (he : origin.Read [.expr e, .word "::"] s) (hlo : e.span.lo = origin.lo)
    (h : methodReference e s = .ok (b, t)) : origin.Read [.expr b] t := by
  simp only [methodReference, get_bind, takeIdent_bind, bind_eq_ok, ite_run, ite_eq_ok,
    pure_eq_ok] at h
  obtain ⟨hnew, rfl, rfl⟩ | ⟨-, name, _, hname, rfl, rfl⟩ := h
  · exact (he.append (Stream.read_token (Stream.not_atEnd_of_isAt hnew))).rule
      (.methodRef (.inr hnew)) trivial (by simp [span?, hlo])
  · obtain ⟨hid, rfl, rfl⟩ := identifier_eq_ok.1 hname
    exact (he.append (Stream.read_token (Stream.not_atEnd_of_isAtKind hid (by simp)))).rule
      (.methodRef (.inl (Stream.kind_of_isAtKind hid))) trivial (by simp [span?, hlo])

/-- What follows an operand belongs to the expression that began with it. -/
theorem read_selector {origin s t : Stream} {e b : Expr} (he : origin.Read [.expr e] s)
    (h : selector g e s = .ok (some b, t)) : origin.Read [.expr b] t := by
  have hlo : e.span.lo = origin.lo := by rw [he.expr_span]; rfl
  simp only [selector, get_bind, eat_bind, take_bind, bind_eq_ok, ite_run, ite_eq_ok, reduceIte,
    Bool.false_eq_true, pure_eq_ok, Option.some.injEq, reduceCtorEq, false_and, and_false,
    or_false, Bool.or_eq_true] at h
  obtain ⟨hw, _, _, h, rfl, rfl⟩ | ⟨-, ⟨hw, _, _, h, rfl, rfl⟩ | ⟨-, ⟨hw, rfl, rfl⟩ |
    ⟨-, hw, _, _, h, rfl, rfl⟩⟩⟩ := h
  · exact read_selection hg (he.append (Stream.read_word hw)) hlo h
  · exact read_indexing hg (he.append (Stream.read_word hw)) hlo h
  · rcases hw with hw | hw
    · rw [Stream.text_of_isAt hw]
      exact (he.append (Stream.read_word hw)).rule (.trailed (.inl rfl)) trivial
        (by simp [span?, hlo])
    · rw [Stream.text_of_isAt hw]
      exact (he.append (Stream.read_word hw)).rule (.trailed (.inr rfl)) trivial
        (by simp [span?, hlo])
  · exact read_methodReference (he.append (Stream.read_word hw)) hlo h

omit hg in
theorem eq_of_selector_none {s t : Stream} {e : Expr} (h : selector g e s = .ok (none, t)) :
    t = s := by
  simp only [selector, get_bind, eat_bind, take_bind, bind_eq_ok, ite_run, ite_eq_ok, reduceIte,
    Bool.false_eq_true, pure_eq_ok, reduceCtorEq, false_and, and_false, exists_false, false_or,
    true_and] at h
  exact h.2.2.2.2

/-! ### Operators -/

omit hg in
theorem castType_eq_ok {s t : Stream} {a : Option TypeRef} (h : castType? g s = .ok (a, t)) :
    (a = none ∧ t = s) ∨ ∃ type u, a = some type ∧ s.isAt "(" ∧
      typeRef g s.advance = .ok (type, u) ∧ u.isAt ")" ∧ t = u.advance := by
  unfold castType? at h
  split at h
  · rename_i hopen
    split at h
    · rename_i type u htype
      split at h
      · rename_i hclose
        obtain ⟨rfl, rfl⟩ := Prod.mk.inj (Except.ok.inj h)
        exact .inr ⟨type, u, rfl, hopen, htype, (Bool.and_eq_true .. ▸ hclose).1, rfl⟩
      · obtain ⟨rfl, rfl⟩ := Prod.mk.inj (Except.ok.inj h)
        exact .inl ⟨rfl, rfl⟩
    · obtain ⟨rfl, rfl⟩ := Prod.mk.inj (Except.ok.inj h)
      exact .inl ⟨rfl, rfl⟩
  · obtain ⟨rfl, rfl⟩ := Prod.mk.inj (Except.ok.inj h)
    exact .inl ⟨rfl, rfl⟩

theorem reads_unary : Reads (unary g) fun e => [.expr e] := by
  intro s e t h
  simp only [unary, get_bind] at h
  cases hop : unaryOperators.find? s.isAt with
  | some op =>
    simp only [hop, take_bind, bind_eq_ok, pure_eq_ok] at h
    obtain ⟨operand, _, hoperand, rfl, rfl⟩ := h
    have read := hg.unary _ _ _ hoperand
    exact ((Stream.read_word (List.find?_some hop)).append read).rule
      (.prefixed (List.mem_of_find?_eq_some hop)) trivial
      (by simp [span?, read.expr_span, Stream.spanFrom])
  | none =>
    simp only [hop, bind_eq_ok] at h
    obtain ⟨a, u, ha, h⟩ := h
    obtain ⟨rfl, hu⟩ | ⟨type, v, rfl, hopen, htype, hclose, rfl⟩ := castType_eq_ok ha
    · simp only [hu, bind_eq_ok] at h
      obtain ⟨e', v, he, h⟩ := h
      exact extend_invariant (P := fun e t => s.Read [.expr e] t)
        (fun e u v he h => by rwa [eq_of_selector_none h])
        (fun e u b v he h => read_selector hg he h) (reads_primary hg _ _ _ he) h
    · simp only [bind_eq_ok, pure_eq_ok] at h
      obtain ⟨operand, _, hoperand, rfl, rfl⟩ := h
      have read := hg.unary _ _ _ hoperand
      exact ((Stream.read_word hopen).append ((reads_typeRef hg _ _ _ htype).append
        ((Stream.read_word hclose).append read))).rule .cast trivial
        (by simp [span?, read.expr_span, Stream.spanFrom])

theorem read_typeTest {origin s t : Stream} {p : Nat} {e b : Expr}
    (he : origin.Read [.expr e, .word "instanceof"] s) (hlo : e.span.lo = origin.lo)
    (hp : precedence? "instanceof" = some p) (left : e.IsLeftOf p)
    (h : typeTest g e s = .ok (b, t)) : origin.Read [.expr b] t := by
  simp only [typeTest, get_bind, bind_eq_ok, ite_run, ite_eq_ok, pure_eq_ok] at h
  obtain ⟨isFinal, u, hfinal, type, v, htype, h⟩ := h
  have front := he.append ((read_eat hfinal).append (reads_typeRef hg _ _ _ htype))
  obtain ⟨-, dropped, _, hdropped, rfl, rfl⟩ | ⟨-, rfl, rfl⟩ := h
  · have parts := front.append (reads_identifier _ _ _ hdropped)
    exact Stream.Read.rule (@Production.instanceOf e isFinal type (some dropped) _)
      (by simpa using parts) ⟨p, hp, left⟩ (by simp [span?, hlo])
  · exact Stream.Read.rule (@Production.instanceOf e isFinal type none _)
      (by simpa using front) ⟨p, hp, left⟩ (by simp [span?, hlo])

theorem left_lt_of_typeTest {s t : Stream} {e b : Expr} (h : typeTest g e s = .ok (b, t)) :
    t.left < s.left := by
  simp only [typeTest, get_bind, bind_eq_ok, ite_run, ite_eq_ok, pure_eq_ok] at h
  obtain ⟨isFinal, u, hfinal, type, v, htype, h⟩ := h
  have front := (read_eat hfinal).append (reads_typeRef hg _ _ _ htype)
  have less := front.left_lt (by simp)
  obtain ⟨-, dropped, _, hdropped, rfl, rfl⟩ | ⟨-, rfl, rfl⟩ := h
  · exact Nat.lt_trans ((reads_identifier _ _ _ hdropped).left_lt (by simp)) less
  · exact less

omit hg in
theorem kind_of_typeTest {s t : Stream} {e b : Expr} (h : typeTest g e s = .ok (b, t)) :
    ∃ type, b.kind = .instanceOf e type := by
  simp only [typeTest, get_bind, bind_eq_ok, ite_run, ite_eq_ok, pure_eq_ok] at h
  obtain ⟨_, _, -, type, _, -, ⟨-, _, _, -, rfl, -⟩ | ⟨-, rfl, -⟩⟩ := h <;> exact ⟨type, rfl⟩

omit hg in
theorem read_takeMany {n : Nat} {s t : Stream} (hn : n ≤ s.ahead.length)
    (h : takeMany n s = .ok ((), t)) : s.Read ((s.ahead.take n).map .token) t := by
  induction n generalizing s with
  | zero =>
    obtain ⟨-, rfl⟩ := pure_eq_ok.1 h
    exact .nil _
  | succ n ih =>
    rw [takeMany, take_bind] at h
    have hend : ¬s.atEnd := by
      rw [Stream.atEnd_iff]
      intro hnil
      simp [hnil] at hn
    have hahead := Stream.ahead_eq_cons hend
    rw [hahead, List.length_cons, Nat.add_le_add_iff_right] at hn
    rw [hahead]
    exact (Stream.read_token hend).append (ih hn h)

/-- Operators between two operands that are no words. -/
def IsOperator (op : String) : Prop :=
  op ∈ assignOperators ∨ (precedence? op).isSome ∧ op ≠ "instanceof"

omit hg in
theorem IsOperator.isOperatorSign {t : Token} (h : IsOperator t.text)
    (hkind : t.kind = .punctuation ∨ t.kind = .keyword) : isOperatorSign t := by
  have spelled : t.is t.text := by rcases hkind with hk | hk <;> simp [Token.is, hk]
  rw [Phrase.isOperatorSign, List.any_eq_true]
  refine ⟨t.text, ?_, spelled⟩
  generalize t.text = op at h
  obtain h | ⟨h, hno⟩ := h
  · revert op
    decide
  · unfold precedence? at h
    split at h <;> simp_all

omit hg in
/-- The signs of an operator that the stream stands at. -/
theorem read_operator {s t : Stream} (hop : IsOperator s.operator.1)
    (h : takeMany s.operator.2 s = .ok ((), t)) :
    ∃ signs : List Token, s.operator.1 = String.join (signs.map Token.text) ∧
      (∀ t ∈ signs, isOperatorSign t) ∧
      ((precedence? s.operator.1).isSome → Token.Joined s.operator.1 signs) ∧
      s.Read (signs.map .token) t := by
  have no_empty : ¬IsOperator "" := by simp [IsOperator, assignOperators, precedence?]
  have hend : ¬s.atEnd := by
    intro hend
    have := Stream.current_isEnd hend
    simp_all [Stream.operator, Stream.isAtKind, Token.isEnd]
  have hahead := Stream.ahead_eq_cons hend
  unfold Stream.operator at hop h ⊢
  split at hop
  · rename_i hkind
    rw [if_pos hkind] at h ⊢
    obtain ⟨n, hn, hle, hjoin, hsigns⟩ := operator_eq s.current s.ahead.tail
    rw [hn] at h
    refine ⟨s.current :: s.ahead.tail.take n, hjoin, ?_, joined_operator hn, ?_⟩
    · obtain ⟨hone, rfl⟩ | hmany := hsigns
      · rw [hone] at hop
        simp only [Bool.or_eq_true, Stream.isAtKind, decide_eq_true_eq] at hkind
        simpa using hop.isOperatorSign hkind
      · intro t ht
        rcases hmany t ht with h | h <;> simp [Phrase.isOperatorSign, h]
    have read := read_takeMany (by rw [hahead] at hle ⊢; simpa using hle) h
    rw [hahead] at read ⊢
    exact read
  · exact absurd hop no_empty

omit hg in
theorem read_instanceof {s t : Stream} (hop : s.operator.1 = "instanceof")
    (h : takeMany s.operator.2 s = .ok ((), t)) : s.Read [.word "instanceof"] t := by
  unfold Stream.operator at hop h
  split at hop
  · rename_i hkind
    rw [if_pos hkind] at h
    unfold Token.operator at hop h
    split at hop
    · rename_i hangle
      have chars := congrArg String.toList hop
      rw [String.toList_join, List.flatMap_cons, Stream.text_of_isAt hangle] at chars
      simp at chars
    · rename_i hangle
      rw [if_neg hangle] at h
      simp only [takeMany, take_bind, pure_eq_ok, true_and] at h
      have hw : s.isAt "instanceof" := by
        simp only [Bool.or_eq_true, Stream.isAtKind, decide_eq_true_eq] at hkind
        dsimp only at hop
        rcases hkind with hk | hk <;> simp [Stream.isAt, Token.is, hop, hk]
      rw [h]
      exact Stream.read_word hw
  · simp at hop

/-- An operator and its right operand belong to the expression that began with the left one. -/
theorem read_operation {origin s t : Stream} {least : Nat} {e b : Expr}
    (he : origin.Read [.expr e] s) (climbs : e.Climbs least s)
    (h : operation g least e s = .ok (some b, t)) :
    origin.Read [.expr b] t ∧ b.Climbs least t := by
  have hlo : e.span.lo = origin.lo := by rw [he.expr_span]; rfl
  simp only [operation, get_bind] at h
  cases hp : precedence? s.operator.1 with
  | none => simp only [hp, pure_eq_ok, reduceCtorEq, false_and] at h
  | some p =>
    have left := climbs.isLeftOf hp
    simp only [hp, bind_eq_ok, ite_run, ite_eq_ok, pure_eq_ok, Option.some.injEq, reduceCtorEq,
      false_and, and_false, false_or] at h
    obtain ⟨tight, _, u, htake, h⟩ := h
    obtain ⟨hinstance, _, _, h, rfl, rfl⟩ | ⟨hno, rhs, _, hrhs, rfl, rfl⟩ := h
    · rw [hinstance] at hp
      refine ⟨read_typeTest hg (he.append (read_instanceof hinstance htake)) hlo hp left h, ?_⟩
      obtain ⟨type, hkind⟩ := kind_of_typeTest h
      exact Expr.climbs_of_instanceOf hkind hp (Nat.not_lt.1 tight)
    · obtain ⟨signs, hsigns, signs', joined, read⟩ :=
        read_operator (.inr ⟨by simp [hp], hno⟩) htake
      have read' := hg.binary _ _ _ _ hrhs
      have right := hg.climbs _ _ _ _ hrhs
      refine ⟨?_, Expr.climbs_of_binary hp (Nat.not_lt.1 tight) right⟩
      have parts := he.append (read.append read')
      have joined := joined (by simp [hp])
      rw [hsigns] at hp joined ⊢
      refine Stream.Read.rule (.binary ?_ signs') (by simpa using parts) ?_ ?_
      · rw [hp]
        rfl
      · exact ⟨⟨p, hp, left, right.isRightOf⟩, signs, joined, rfl⟩
      · simp [span?, Span.upTo, hlo, read'.expr_span, Stream.spanFrom]

theorem left_lt_of_operation {s t : Stream} {least : Nat} {e b : Expr}
    (h : operation g least e s = .ok (some b, t)) : t.left < s.left := by
  simp only [operation, get_bind] at h
  cases hp : precedence? s.operator.1 with
  | none => simp only [hp, pure_eq_ok, reduceCtorEq, false_and] at h
  | some p =>
    simp only [hp, bind_eq_ok, ite_run, ite_eq_ok, pure_eq_ok, Option.some.injEq, reduceCtorEq,
      false_and, and_false, false_or] at h
    obtain ⟨-, _, u, htake, h⟩ := h
    obtain ⟨hinstance, _, _, h, rfl, rfl⟩ | ⟨hno, rhs, _, hrhs, rfl, rfl⟩ := h
    · exact Nat.lt_trans (left_lt_of_typeTest hg h)
        ((read_instanceof hinstance htake).left_lt (by simp))
    · obtain ⟨signs, -, -, -, read⟩ := read_operator (.inr ⟨by simp [hp], hno⟩) htake
      exact (read.append (hg.binary _ _ _ _ hrhs)).left_lt (by simp)

omit hg in
theorem stops_of_operation_none {s t : Stream} {least p : Nat} {e : Expr}
    (h : operation g least e s = .ok (none, t)) (hp : precedence? s.operator.1 = some p) :
    p < least := by
  simp only [operation, get_bind, hp, bind_eq_ok, ite_run, ite_eq_ok, pure_eq_ok, reduceCtorEq,
    false_and, and_false, exists_false, or_false, or_self] at h
  exact h.1

omit hg in
theorem eq_of_operation_none {s t : Stream} {least : Nat} {e : Expr}
    (h : operation g least e s = .ok (none, t)) : t = s := by
  simp only [operation, get_bind] at h
  cases hp : precedence? s.operator.1 with
  | none =>
    simp only [hp, pure_eq_ok] at h
    exact h.2
  | some p =>
    simp only [hp, bind_eq_ok, ite_run, ite_eq_ok, pure_eq_ok, reduceCtorEq, false_and,
      and_false, exists_false, or_false, or_self, true_and] at h
    exact h.2

/-- An operand is read, and operators with their operands as long as they are tight enough. -/
theorem read_binary {least : Nat} {s t : Stream} {e : Expr} (h : binary g least s = .ok (e, t)) :
    s.Read [.expr e] t ∧ e.Climbed least t := by
  simp only [binary, bind_eq_ok] at h
  obtain ⟨lhs, u, hlhs, h⟩ := h
  have first : s.Read [.expr lhs] u ∧ lhs.Climbs least u :=
    ⟨reads_unary hg _ _ _ hlhs, Expr.climbs_of_isOperand (isOperand_of_unary hlhs)⟩
  have kept : s.Read [.expr e] t ∧ e.Climbs least t :=
    extend_invariant (P := fun e t => s.Read [.expr e] t ∧ e.Climbs least t)
      (fun _ _ _ he h => by rwa [eq_of_operation_none h])
      (fun _ _ _ _ he h => read_operation hg he.1 he.2 h) first h
  obtain ⟨v, last⟩ := extend_stops (fun _ _ _ _ h => left_lt_of_operation hg h) h
  obtain rfl := eq_of_operation_none last
  exact ⟨kept.1, kept.2, fun p hp => stops_of_operation_none last hp⟩

theorem reads_binary (least : Nat) : Reads (binary g least) fun e => [.expr e] :=
  fun _ _ _ h => (read_binary hg h).1

theorem reads_conditional : Reads (conditional g) fun e => [.expr e] := by
  intro s e t h
  simp only [conditional, eat_bind, bind_eq_ok, ite_eq_ok, reduceIte, Bool.false_eq_true,
    pure_eq_ok] at h
  obtain ⟨cond, u, hcond, h⟩ := h
  have read := reads_binary hg _ _ _ _ hcond
  obtain ⟨hask, yes, _, hyes, _, v, hcolon, a, w, ha, h⟩ | ⟨-, rfl, rfl⟩ := h
  · have front := read.append ((Stream.read_word hask).append
      ((hg.expr _ _ _ hyes).append (read_expect hcolon)))
    have whole {no : Expr} {t : Stream} (hno : v.Read [.expr no] t) :
        s.Read [.expr ⟨.conditional cond yes no, cond.span.upTo no.span⟩] t :=
      (front.append hno).rule .conditional trivial
        (by simp [span?, Span.upTo, read.expr_span, hno.expr_span, Stream.spanFrom])
    cases a with
    | some no =>
      simp only [bind_eq_ok, pure_eq_ok] at h
      obtain ⟨_, _, ⟨rfl, rfl⟩, rfl, rfl⟩ := h
      exact whole (read_lambda hg ha)
    | none =>
      simp only [bind_eq_ok, pure_eq_ok] at h
      obtain ⟨no, _, hno, rfl, rfl⟩ := h
      rw [eq_of_lambda_none ha] at hno
      exact whole (hg.conditional _ _ _ hno)
  · exact read

theorem reads_expr : Reads (expr g) fun e => [.expr e] := by
  intro s e t h
  simp only [expr, bind_eq_ok] at h
  obtain ⟨a, u, ha, h⟩ := h
  cases a with
  | some e =>
    obtain ⟨rfl, rfl⟩ := pure_eq_ok.1 h
    exact read_lambda hg ha
  | none =>
    obtain rfl := eq_of_lambda_none ha
    simp only [get_bind, bind_eq_ok, ite_run, ite_eq_ok, pure_eq_ok] at h
    obtain ⟨lhs, v, hlhs, h⟩ := h
    have read := reads_conditional hg _ _ _ hlhs
    obtain ⟨hop, _, _, htake, rhs, _, hrhs, rfl, rfl⟩ | ⟨-, rfl, rfl⟩ := h
    · have hop' := List.contains_iff_mem.1 hop
      obtain ⟨signs, hsigns, signs', -, read'⟩ := read_operator (.inl hop') htake
      have read'' := hg.expr _ _ _ hrhs
      rw [hsigns] at hop' ⊢
      refine Stream.Read.rule (.assign hop' signs') ?_ trivial ?_
      · simpa using read.append (read'.append read'')
      · simp [span?, Span.upTo, read.expr_span, read''.expr_span, Stream.spanFrom]
    · exact read

theorem reads_varInit : Reads (varInit g) fun e => [.expr e] := by
  intro s e t h
  simp only [varInit, get_bind, ite_run, ite_eq_ok] at h
  obtain ⟨-, h⟩ | ⟨-, h⟩ := h
  · exact reads_arrayInit hg _ _ _ h
  · exact reads_expr hg _ _ _ h

end SketchPrep.Syntax
