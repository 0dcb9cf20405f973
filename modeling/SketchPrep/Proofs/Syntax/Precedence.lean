import Mathlib.Data.List.Forall2
import SketchPrep.Proofs.Syntax.Parts

/-!
Operators in the tree of a sketch. Main statement: `Sketch.groups_of_parse`, operators are grouped
by how they bind, and between its operands an expression has the operators of the source in their
order.
-/

namespace SketchPrep

open Token

/-- What stands side by side in an expression with operators. A type test is written behind its
operand. -/
inductive Piece where
  | operand (e : Expr)
  | operator (op : String)
  | typeTest (type : TypeRef)

/-- Operands and operators from left to right. -/
def Expr.pieces : Expr → List Piece
  | ⟨.binary op lhs rhs, _⟩ => lhs.pieces ++ .operator op :: rhs.pieces
  | ⟨.instanceOf e type, _⟩ => e.pieces ++ [.typeTest type]
  | e => [.operand e]

/-- The words of a piece, if the operands are names and the types too. -/
def Piece.words : Piece → List String
  | .operand ⟨.name id, _⟩ => [id.name]
  | .operator op => [op]
  | .typeTest ⟨.named [⟨id, none⟩], 0, _⟩ => ["instanceof", id.name]
  | _ => []

/-- The tokens of a piece. The tree keeps neither `final` nor the name that a type test binds. -/
inductive Piece.WrittenWith : Piece → List Token → Prop
  | operand {e : Expr} {ts : List Token} (h : Phrase.Spells [.expr e] ts) :
    WrittenWith (.operand e) ts
  | operator {op : String} {signs : List Token} (h : Joined op signs) :
    WrittenWith (.operator op) signs
  | typeTest {type : TypeRef} {word : Token} {final name : Option Token} {ts : List Token}
    (hword : word.is "instanceof") (hfinal : ∀ t ∈ final, t.is "final")
    (h : Phrase.Spells [.type type] ts) (hname : ∀ t ∈ name, t.kind = .identifier) :
    WrittenWith (.typeTest type) (word :: (final.toList ++ (ts ++ name.toList)))

namespace Phrase

variable {p r : Phrase} {ps qs : List Phrase} {ts us : List Token}

theorem derives_singleton (h : Production p qs) (binds : Binds p qs) (parts : Derives qs us)
    (span : ∀ a, p.span? = some a → spanOf? us = some a) : Derives [p] us := by
  simpa using Derives.rule h binds parts span .nil

theorem Derives.uncons (h : Derives (p :: ps) ts) :
    ∃ us vs, ts = us ++ vs ∧ Derives [p] us ∧ Derives ps vs := by
  cases h with
  | @token t _ ts rest => exact ⟨[t], ts, rfl, .token .nil, rest⟩
  | @word w t _ ts h rest => exact ⟨[t], ts, rfl, .word h .nil, rest⟩
  | @rule _ qs _ us vs h binds parts span rest =>
    exact ⟨us, vs, rfl, derives_singleton h binds parts span, rest⟩

theorem Derives.exists_production (h : Derives [p] us) (token : ∀ t, p ≠ .token t)
    (word : ∀ w, p ≠ .word w) : ∃ qs, Production p qs ∧ Binds p qs ∧ Derives qs us := by
  cases h with
  | token => exact absurd rfl (token _)
  | word => exact absurd rfl (word _)
  | rule h binds parts _ rest =>
    cases rest
    rw [List.append_nil]
    exact ⟨_, h, binds, parts⟩

theorem Derives.drop_tokens {signs : List Token} (h : Derives (signs.map .token ++ ps) ts) :
    ∃ us, ts = signs ++ us ∧ Derives ps us := by
  induction signs generalizing ts with
  | nil => exact ⟨ts, rfl, h⟩
  | cons t signs ih =>
    obtain ⟨us, vs, rfl, first, rest⟩ := h.uncons
    obtain rfl := spells_token first.spells
    obtain ⟨ws, rfl, behind⟩ := ih rest
    exact ⟨ws, rfl, behind⟩

theorem Derives.of_perhaps {isThere : Bool} {w : String}
    (h : Derives (perhaps isThere w ++ ps) ts) :
    ∃ (word : Option Token) (us : List Token), ts = word.toList ++ us ∧ (∀ t ∈ word, t.is w) ∧
      Derives ps us := by
  cases isThere with
  | false => exact ⟨none, ts, rfl, by simp, h⟩
  | true =>
    obtain ⟨us, vs, rfl, first, rest⟩ := Derives.uncons h
    obtain ⟨t, rfl, ht⟩ := spells_word first.spells
    exact ⟨some t, vs, rfl, by simpa using ht, rest⟩

theorem Derives.of_names {id : Option Ident} (h : Derives (id.toList.map .name) ts) :
    ∃ name : Option Token, ts = name.toList ∧ ∀ t ∈ name, t.kind = .identifier := by
  cases id with
  | none =>
    cases h
    exact ⟨none, rfl, by simp⟩
  | some id =>
    obtain ⟨qs, production, -, parts⟩ := Derives.exists_production h (by simp) (by simp)
    cases production with
    | @name t ht =>
      obtain rfl := spells_token parts.spells
      exact ⟨some t, rfl, by simpa using ht⟩

/-- What a tree contains is written with tokens side by side. -/
theorem Derives.exists_run (h : Derives ps us) : ∀ p ∈ ps, p.Contains r → r.standsAlone →
    ∃ front vs back, us = front ++ (vs ++ back) ∧ Derives [r] vs := by
  induction h with
  | nil => simp
  | @token t ps ts rest ih =>
    intro p hp hr alone
    rcases List.mem_cons.1 hp with rfl | hp
    · cases hr with
      | refl => exact ⟨[], [t], ts, rfl, .token .nil⟩
      | part hq => cases hq
    · obtain ⟨front, vs, back, rfl, run⟩ := ih p hp hr alone
      exact ⟨t :: front, vs, back, rfl, run⟩
  | @word w t ps ts hw rest ih =>
    intro p hp hr alone
    rcases List.mem_cons.1 hp with rfl | hp
    · cases hr with
      | refl => exact ⟨[], [t], ts, rfl, .word hw .nil⟩
      | part hq => cases hq
    · obtain ⟨front, vs, back, rfl, run⟩ := ih p hp hr alone
      exact ⟨t :: front, vs, back, rfl, run⟩
  | @rule p qs ps us ts production binds parts span rest ihp ih =>
    intro q hq hr alone
    rcases List.mem_cons.1 hq with rfl | hq
    · rcases production.contains hr alone with rfl | ⟨part, hpart, hr⟩
      · exact ⟨[], us, ts, rfl, derives_singleton production binds parts span⟩
      · obtain ⟨front, vs, back, rfl, run⟩ := ihp part hpart hr alone
        exact ⟨front, vs, back ++ ts, by simp, run⟩
    · obtain ⟨front, vs, back, rfl, run⟩ := ih q hq hr alone
      exact ⟨us ++ front, vs, back, by simp, run⟩

/-! ### One expression -/

theorem Derives.exists_binds {e : Expr} (h : Derives [.expr e] us) :
    ∃ qs, Production (.expr e) qs ∧ Binds (.expr e) qs ∧ Derives qs us :=
  h.exists_production (by simp) (by simp)

theorem Derives.grouped {e : Expr} (h : Derives [.expr e] us) : e.kind.Grouped := by
  obtain ⟨qs, -, binds, -⟩ := h.exists_binds
  obtain ⟨kind, span⟩ := e
  cases kind with
  | binary op lhs rhs => exact binds.1
  | instanceOf e type => exact binds
  | _ => trivial

theorem Derives.of_binary {op : String} {lhs rhs : Expr} {span : Span}
    (h : Derives [.expr ⟨.binary op lhs rhs, span⟩] us) :
    ∃ vs signs ws, us = vs ++ (signs ++ ws) ∧ Derives [.expr lhs] vs ∧ Joined op signs ∧
      Derives [.expr rhs] ws := by
  obtain ⟨qs, -, ⟨-, signs, joined, rfl⟩, parts⟩ := h.exists_binds
  obtain ⟨vs, ts, rfl, left, rest⟩ := parts.uncons
  obtain ⟨ws, rfl, right⟩ := Derives.drop_tokens rest
  exact ⟨vs, signs, ws, rfl, left, joined, right⟩

theorem Derives.of_instanceOf {e : Expr} {type : TypeRef} {span : Span}
    (h : Derives [.expr ⟨.instanceOf e type, span⟩] us) :
    ∃ vs ws, us = vs ++ ws ∧ Derives [.expr e] vs ∧ Piece.WrittenWith (.typeTest type) ws := by
  obtain ⟨qs, production, -, parts⟩ := h.exists_binds
  cases production with
  | @instanceOf _ isFinal _ dropped =>
    obtain ⟨vs, _, rfl, operand, behindOperand⟩ := parts.uncons
    obtain ⟨_, _, rfl, first, behindWord⟩ := behindOperand.uncons
    obtain ⟨word, rfl, hword⟩ := spells_word first.spells
    obtain ⟨final, _, rfl, hfinal, behindFinal⟩ := Derives.of_perhaps behindWord
    obtain ⟨_, _, rfl, tested, behindType⟩ := behindFinal.uncons
    obtain ⟨name, rfl, hname⟩ := Derives.of_names behindType
    exact ⟨vs, _, rfl, operand, .typeTest hword hfinal tested.spells hname⟩

theorem Derives.pieces {e : Expr} (h : Derives [.expr e] us) :
    ∃ runs, us = runs.flatten ∧ List.Forall₂ Piece.WrittenWith e.pieces runs := by
  fun_induction Expr.pieces e generalizing us with
  | case1 op lhs rhs span left right =>
    obtain ⟨vs, signs, ws, rfl, hleft, joined, hright⟩ := h.of_binary
    obtain ⟨runs, rfl, before⟩ := left hleft
    obtain ⟨runs', rfl, behind⟩ := right hright
    exact ⟨runs ++ signs :: runs', by simp,
      List.rel_append before (.cons (.operator joined) behind)⟩
  | case2 e type span operand =>
    obtain ⟨vs, ws, rfl, hoperand, test⟩ := h.of_instanceOf
    obtain ⟨runs, rfl, before⟩ := operand hoperand
    exact ⟨runs ++ [ws], by simp, List.rel_append before (.cons test .nil)⟩
  | case3 => exact ⟨[us], by simp, .cons (.operand h.spells) .nil⟩

end Phrase

namespace Sketch

open Phrase

/-- Operators stand between operands that they may have. The tokens of an expression are those of
its operands and operators from left to right. -/
theorem groups_of_parse {source : Text} {s : Sketch} (h : parse source = .ok s) :
    ∃ ts, tokenize source = .ok ts ∧ ∀ e, s.Contains (.expr e) → e.kind.Grouped ∧
      ∃ front runs back, ts.body = front ++ (runs.flatten ++ back) ∧
        spanOf? runs.flatten = some e.span ∧ List.Forall₂ Piece.WrittenWith e.pieces runs := by
  obtain ⟨ts, hts, derives⟩ := derives_of_parse h
  refine ⟨ts, hts, fun e he => ?_⟩
  obtain ⟨i, hi, contains⟩ := he
  have item : .item i ∈ s.phrases := by simp [phrases, hi]
  obtain ⟨front, us, back, body, run⟩ := derives.exists_run _ item contains rfl
  obtain ⟨runs, rfl, pieces⟩ := run.pieces
  exact ⟨run.grouped, front, runs, back, body, run.spells.spanOf? rfl, pieces⟩

/-- A shift, a comparison and a type test among sums and products. -/
theorem groups_of_shift :
    let source : Text := "b = x - y - z * 2 >>> 1 >= a && o instanceof T t;".toList
    ∃ s ts, parse source = .ok s ∧ tokenize source = .ok ts ∧
      ∀ e, s.Contains (.expr e) → e.kind.Grouped ∧
        ∃ front runs back, ts.body = front ++ (runs.flatten ++ back) ∧
          spanOf? runs.flatten = some e.span ∧
            List.Forall₂ Piece.WrittenWith e.pieces runs := by
  intro source
  have read : (parse source).toOption.isSome = true := by decide +kernel
  cases h : parse source with
  | error u =>
    rw [h] at read
    cases read
  | ok s =>
    obtain ⟨ts, hts, groups⟩ := groups_of_parse h
    exact ⟨s, ts, rfl, hts, groups⟩

/-! ### A type test before a tighter operator -/

/-- What is assigned, if that is an operator with two operands: its name, they and its span. -/
def assigned? : Sketch → Option (String × Expr × Expr × Span)
  | ⟨_, [.stmt ⟨.expr ⟨.assign _ _ ⟨.binary op lhs rhs, span⟩, _⟩, _⟩], _⟩ =>
    some (op, lhs, rhs, span)
  | _ => none

theorem contains_of_assigned? {s : Sketch} {op : String} {lhs rhs : Expr} {span : Span}
    (h : assigned? s = some (op, lhs, rhs, span)) :
    s.Contains (.expr ⟨.binary op lhs rhs, span⟩) := by
  unfold assigned? at h
  split at h
  · obtain ⟨rfl, rfl, rfl, rfl⟩ : _ ∧ _ ∧ _ ∧ _ := by simpa using h
    refine ⟨_, .head _, ?_⟩
    -- item, statement, its kind, the assignment
    iterate 3 refine .part (.head _) ?_
    exact .of_mem_parts (.tail _ (.head _))
  · cases h

/-- A type test binds less tightly than a sum and stands on its left all the same. The name that it
binds is among the tokens of the sum and not in its tree. -/
theorem typeTest_left_of_sum :
    let source : Text := "b = o instanceof T t + c;".toList
    ∃ s ts lhs rhs span, parse source = .ok s ∧ tokenize source = .ok ts ∧
      s.Contains (.expr ⟨.binary "+" lhs rhs, span⟩) ∧ lhs.operator? = some "instanceof" ∧
      (∃ p q, Syntax.precedence? "+" = some p ∧ Syntax.precedence? "instanceof" = some q ∧ q < p) ∧
      (ts.body.filter fun t => span.lo ≤ t.start.offset ∧ t.stop ≤ span.hi).map text =
        ["o", "instanceof", "T", "t", "+", "c"] ∧
      (⟨.binary "+" lhs rhs, span⟩ : Expr).pieces.flatMap Piece.words =
        ["o", "instanceof", "T", "+", "c"] := by
  intro source
  have read : (parse source).toOption.any (fun s => (tokenize source).toOption.any fun ts =>
      (assigned? s).any fun (op, lhs, rhs, span) => op = "+" ∧ lhs.operator? = some "instanceof" ∧
        (ts.body.filter fun t => span.lo ≤ t.start.offset ∧ t.stop ≤ span.hi).map text =
          ["o", "instanceof", "T", "t", "+", "c"] ∧
        (⟨.binary "+" lhs rhs, span⟩ : Expr).pieces.flatMap Piece.words =
          ["o", "instanceof", "T", "+", "c"]) = true := by
    decide +kernel
  cases h : parse source with
  | error => simp [h, Except.toOption] at read
  | ok s =>
    cases hts : tokenize source with
    | error => simp [h, hts, Except.toOption] at read
    | ok ts =>
      rw [h, hts] at read
      have read : (assigned? s).any _ = true := read
      obtain ⟨⟨op, lhs, rhs, span⟩, found, facts⟩ := (Option.any_eq_true ..).1 read
      obtain ⟨rfl, test, tokens, words⟩ := of_decide_eq_true facts
      exact ⟨s, ts, lhs, rhs, span, rfl, rfl, contains_of_assigned? found, test,
        ⟨9, 7, rfl, rfl, by decide⟩, tokens, words⟩

end Sketch

end SketchPrep
