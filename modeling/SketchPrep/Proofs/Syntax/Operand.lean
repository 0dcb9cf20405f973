import SketchPrep.Proofs.Syntax.Reading

/-!
What stands between operators: the readers below those of binary operators make no expression with
an operator at the top. Main statement: `isOperand_of_unary`.
-/

namespace SketchPrep.Syntax

open Reader

variable {g : Grammar} {s t : Stream} {e : Expr}

theorem isOperand_of_call {target : Option Expr} {name : Ident} {start : Nat}
    (h : call g target name start s = .ok (e, t)) : e.isOperand := by
  simp only [call, get_bind, bind_eq_ok, pure_eq_ok] at h
  obtain ⟨args, _, -, rfl, -⟩ := h
  rfl

theorem isOperand_of_literal {kind : LiteralKind} (h : literal kind s = .ok (e, t)) :
    e.isOperand := by
  simp only [literal, take_bind, pure_eq_ok] at h
  obtain ⟨rfl, -⟩ := h
  rfl

theorem isOperand_of_nameOrCall {plain : Ident → ExprKind}
    (hplain : ∀ id span, (⟨plain id, span⟩ : Expr).isOperand)
    (h : nameOrCall g plain s = .ok (e, t)) : e.isOperand := by
  simp only [nameOrCall, takeIdent_bind, get_bind, ite_run, ite_eq_ok, pure_eq_ok] at h
  obtain ⟨-, h⟩ | ⟨-, rfl, -⟩ := h
  · exact isOperand_of_call h
  · exact hplain _ _

theorem isOperand_of_arrayRest {start : Nat} {type : TypeRef}
    (h : arrayRest g start type s = .ok (e, t)) : e.isOperand := by
  simp only [arrayRest, get_bind, bind_eq_ok, ite_run, ite_eq_ok, pure_eq_ok] at h
  obtain ⟨_, _, -, _, _, -, ⟨-, _, _, -, rfl, -⟩ | ⟨-, _, _, -, rfl, -⟩⟩ := h <;> rfl

theorem isOperand_of_creation (h : creation g s = .ok (e, t)) : e.isOperand := by
  simp only [creation, get_bind, bind_eq_ok, ite_run, ite_eq_ok, pure_eq_ok] at h
  obtain ⟨_, _, -, type, u, -, ⟨-, h⟩ | ⟨-, _, _, -, _, _, -, rfl, -⟩⟩ := h
  · exact isOperand_of_arrayRest h
  · rfl

theorem isOperand_of_classLiteral (h : classLiteral g s = .ok (e, t)) : e.isOperand := by
  simp only [classLiteral, get_bind, bind_eq_ok, ite_run, ite_eq_ok, pure_eq_ok, failWith_eq_ok,
    and_false, or_false] at h
  obtain ⟨type, u, -, -, _, _, -, rfl, -⟩ := h
  rfl

theorem isOperand_of_keywordOperand (h : keywordOperand g s = .ok (e, t)) : e.isOperand := by
  simp only [keywordOperand, get_bind] at h
  generalize s.current.text = w at h
  split at h
  · exact isOperand_of_literal h
  · exact isOperand_of_literal h
  · exact isOperand_of_literal h
  · exact isOperand_of_nameOrCall (fun _ _ => rfl) h
  · exact isOperand_of_nameOrCall (fun _ _ => rfl) h
  · exact isOperand_of_creation h
  · simp only [ite_run, ite_eq_ok, failWith_eq_ok, and_false, or_false] at h
    obtain ⟨-, h⟩ | ⟨-, -, h⟩ := h
    · exact isOperand_of_nameOrCall (fun _ _ => rfl) h
    · exact isOperand_of_classLiteral h

theorem isOperand_of_primary (h : primary g s = .ok (e, t)) : e.isOperand := by
  simp only [primary, get_bind] at h
  cases hk : s.current.kind with
  | identifier =>
    simp only [hk] at h
    exact isOperand_of_nameOrCall (fun _ _ => rfl) h
  | keyword =>
    simp only [hk] at h
    exact isOperand_of_keywordOperand h
  | punctuation =>
    simp only [hk, ite_run, ite_eq_ok, failWith_eq_ok, and_false, or_false, parenthesized, get_bind,
      bind_eq_ok, pure_eq_ok] at h
    obtain ⟨-, _, _, -, inner, _, -, _, _, -, rfl, -⟩ := h
    rfl
  | endOfInput => simp only [hk, failWith_eq_ok] at h
  | _ =>
    simp only [hk] at h
    exact isOperand_of_literal h

theorem isOperand_of_selection {b : Expr} (h : selection g e s = .ok (b, t)) : b.isOperand := by
  simp only [selection, get_bind, bind_eq_ok, ite_run, ite_eq_ok, pure_eq_ok] at h
  obtain ⟨-, _, _, -, _, _, -, ⟨-, h⟩ | ⟨-, rfl, -⟩⟩ | ⟨-, _, _, -, ⟨-, h⟩ | ⟨-, rfl, -⟩⟩ := h
  · exact isOperand_of_call h
  · rfl
  · exact isOperand_of_call h
  · rfl

theorem isOperand_of_methodReference {b : Expr} (h : methodReference e s = .ok (b, t)) :
    b.isOperand := by
  simp only [methodReference, get_bind, takeIdent_bind, bind_eq_ok, ite_run, ite_eq_ok,
    pure_eq_ok] at h
  obtain ⟨-, rfl, -⟩ | ⟨-, _, _, -, rfl, -⟩ := h <;> rfl

theorem isOperand_of_selector {b : Expr} (h : selector g e s = .ok (some b, t)) :
    b.isOperand := by
  simp only [selector, get_bind, eat_bind, take_bind, bind_eq_ok, ite_run, ite_eq_ok, reduceIte,
    Bool.false_eq_true, pure_eq_ok, Option.some.injEq, reduceCtorEq, false_and, and_false,
    or_false] at h
  obtain ⟨-, _, _, h, rfl, -⟩ | ⟨-, ⟨-, _, _, h, rfl, -⟩ | ⟨-, ⟨-, rfl, -⟩ |
    ⟨-, -, _, _, h, rfl, -⟩⟩⟩ := h
  · exact isOperand_of_selection h
  · simp only [indexing, get_bind, bind_eq_ok, pure_eq_ok] at h
    obtain ⟨_, _, -, _, _, -, rfl, -⟩ := h
    rfl
  · rfl
  · exact isOperand_of_methodReference h

/-- An expression with an operator at the top stands in parentheses, or between other operators. -/
theorem isOperand_of_unary (h : unary g s = .ok (e, t)) : e.isOperand := by
  simp only [unary, get_bind] at h
  cases hop : unaryOperators.find? s.isAt with
  | some op =>
    simp only [hop, take_bind, bind_eq_ok, pure_eq_ok] at h
    obtain ⟨operand, _, -, rfl, -⟩ := h
    rfl
  | none =>
    simp only [hop, bind_eq_ok] at h
    obtain ⟨_ | type, u, -, h⟩ := h
    · simp only [bind_eq_ok] at h
      obtain ⟨e', v, he, h⟩ := h
      exact extend_invariant (P := fun e _ => e.isOperand) (fun _ _ _ he _ => he)
        (fun _ _ _ _ _ hb => isOperand_of_selector hb) (isOperand_of_primary he) h
    · simp only [bind_eq_ok, pure_eq_ok] at h
      obtain ⟨operand, _, -, rfl, -⟩ := h
      rfl

end SketchPrep.Syntax
