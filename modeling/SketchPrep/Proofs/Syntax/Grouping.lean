import SketchPrep.Proofs.Syntax.Phrase

/-!
How operators group their operands. The rules of `Phrase` leave that open; a derivation `Derives`
if, besides, each operator stands between operands that it may have, and is written with signs that
nothing separates. All operators group to the left, so that an operator as tight as the one at the
top may follow the left operand, while the right operand needs a tighter one.
-/

namespace SketchPrep

namespace Expr

/-- The operator at the top. -/
def operator? (e : Expr) : Option String :=
  match e.kind with
  | .binary op _ _ => some op
  | .instanceOf _ _ => some "instanceof"
  | _ => none

/-- In parentheses only it is an operand of an operator. -/
def isLoose (e : Expr) : Bool :=
  match e.kind with
  | .assign _ _ _ | .conditional _ _ _ | .lambda _ _ => true
  | _ => false

/-- A left operand where `p` is the precedence of the operator. A type test may stand there whatever
`p` is, as it ends with a type and no other reading is possible. -/
structure IsLeftOf (p : Nat) (e : Expr) : Prop where
  closed : e.isLoose = false
  tight : ∀ op lhs rhs, e.kind = .binary op lhs rhs →
    ∃ q, Syntax.precedence? op = some q ∧ p ≤ q

/-- A right operand where `p` is the precedence of the operator. -/
structure IsRightOf (p : Nat) (e : Expr) : Prop where
  closed : e.isLoose = false
  tighter : ∀ op, e.operator? = some op → ∃ q, Syntax.precedence? op = some q ∧ p < q

/-- What a loop over operators of precedence `least` at least has made of the tokens before `s`: the
operator that comes next is no tighter than the one at the top. -/
structure Climbs (least : Nat) (e : Expr) (s : Syntax.Stream) : Prop where
  closed : e.isLoose = false
  tight : ∀ op, e.operator? = some op → ∃ q, Syntax.precedence? op = some q ∧ least ≤ q
  next : ∀ op lhs rhs, e.kind = .binary op lhs rhs →
    ∃ q, Syntax.precedence? op = some q ∧ ∀ p, Syntax.precedence? s.operator.1 = some p → p ≤ q

/-- The loop has stopped: no operator that it may take comes next. -/
structure Climbed (least : Nat) (e : Expr) (s : Syntax.Stream) : Prop extends e.Climbs least s where
  stops : ∀ p, Syntax.precedence? s.operator.1 = some p → p < least

/-- Parentheses, if any, are part of the expression, and so are the signs before and behind it. -/
def isOperand (e : Expr) : Bool := e.operator?.isNone && !e.isLoose

variable {e : Expr} {s : Syntax.Stream} {least p : Nat}

theorem Climbs.isLeftOf (h : e.Climbs least s)
    (hp : Syntax.precedence? s.operator.1 = some p) : e.IsLeftOf p where
  closed := h.closed
  tight op lhs rhs hkind := by
    obtain ⟨q, hq, next⟩ := h.next op lhs rhs hkind
    exact ⟨q, hq, next p hp⟩

theorem Climbs.isRightOf (h : e.Climbs (p + 1) s) : e.IsRightOf p :=
  ⟨h.closed, h.tight⟩

theorem climbs_of_isOperand (h : e.isOperand) : e.Climbs least s := by
  simp only [isOperand, Bool.and_eq_true, Option.isNone_iff_eq_none, Bool.not_eq_true'] at h
  obtain ⟨none, closed⟩ := h
  refine ⟨closed, ?_, ?_⟩
  · intro op hop
    rw [none] at hop
    cases hop
  · intro op lhs rhs hkind
    rw [operator?, hkind] at none
    cases none

theorem climbs_of_instanceOf {e' : Expr} {type : TypeRef} (hkind : e.kind = .instanceOf e' type)
    (hp : Syntax.precedence? "instanceof" = some p) (tight : least ≤ p) : e.Climbs least s := by
  refine ⟨by rw [isLoose, hkind], ?_, ?_⟩
  · intro op hop
    rw [operator?, hkind] at hop
    obtain rfl := Option.some.inj hop
    exact ⟨p, hp, tight⟩
  · intro op lhs rhs hbinary
    rw [hkind] at hbinary
    cases hbinary

theorem climbs_of_binary {op : String} {lhs rhs : Expr} {span : Span}
    (hp : Syntax.precedence? op = some p) (tight : least ≤ p) (right : rhs.Climbed (p + 1) s) :
    (⟨.binary op lhs rhs, span⟩ : Expr).Climbs least s := by
  refine ⟨rfl, ?_, ?_⟩
  · intro op' hop
    obtain rfl := Option.some.inj hop
    exact ⟨p, hp, tight⟩
  · intro op' lhs' rhs' hkind
    injection hkind with hop
    subst hop
    exact ⟨p, hp, fun r hr => Nat.le_of_lt_succ (right.stops r hr)⟩

end Expr

/-- The operands are ones that the operator at the top may have. -/
def ExprKind.Grouped : ExprKind → Prop
  | .binary op lhs rhs =>
    ∃ p, Syntax.precedence? op = some p ∧ lhs.IsLeftOf p ∧ rhs.IsRightOf p
  | .instanceOf e _ => ∃ p, Syntax.precedence? "instanceof" = some p ∧ e.IsLeftOf p
  | _ => True

/-- Nothing stands between the tokens. -/
def Token.Touching : List Token → Prop
  | a :: b :: ts => a.stop = b.start.offset ∧ Touching (b :: ts)
  | _ => True

/-- The operator is written with these tokens: one, or several angles and signs of equality
without anything between them. -/
structure Token.Joined (op : String) (signs : List Token) : Prop where
  spelled : op = String.join (signs.map Token.text)
  touching : Touching signs
  angles : signs.length = 1 ∨
    op ∈ [">=", ">>", ">>>"] ∧ ∀ t ∈ signs, t.is ">" ∨ t.is "="

namespace Phrase

/-- What a rule leaves open about operators. -/
def Binds : Phrase → List Phrase → Prop
  | .expr ⟨.binary op lhs rhs, _⟩, qs => (ExprKind.binary op lhs rhs).Grouped ∧
    ∃ signs, Token.Joined op signs ∧ qs = .expr lhs :: signs.map .token ++ [.expr rhs]
  | .expr ⟨.instanceOf e t, _⟩, _ => (ExprKind.instanceOf e t).Grouped
  | _, _ => True

/-- The tokens that the phrases are written with, operators being grouped by how they bind. -/
inductive Derives : List Phrase → List Token → Prop
  | nil : Derives [] []
  | token {t : Token} {ps : List Phrase} {ts : List Token} (rest : Derives ps ts) :
    Derives (.token t :: ps) (t :: ts)
  | word {w : String} {t : Token} {ps : List Phrase} {ts : List Token} (h : t.is w)
    (rest : Derives ps ts) : Derives (.word w :: ps) (t :: ts)
  | rule {p : Phrase} {qs ps : List Phrase} {us ts : List Token} (h : Production p qs)
    (binds : Binds p qs) (parts : Derives qs us)
    (span : ∀ s, p.span? = some s → Token.spanOf? us = some s)
    (rest : Derives ps ts) : Derives (p :: ps) (us ++ ts)

variable {p : Phrase} {ps qs : List Phrase} {ts us : List Token}

theorem Derives.spells (h : Derives ps ts) : Spells ps ts := by
  induction h with
  | nil => exact .nil
  | token _ ih => exact .token ih
  | word h _ ih => exact .word h ih
  | rule h _ _ span _ parts ih => exact .rule h parts span ih

theorem Derives.append (hp : Derives ps ts) (hq : Derives qs us) :
    Derives (ps ++ qs) (ts ++ us) := by
  induction hp with
  | nil => exact hq
  | token _ ih => exact .token ih
  | word h _ ih => exact .word h ih
  | rule h binds parts span _ _ ih =>
    rw [List.append_assoc]
    exact .rule h binds parts span ih

end Phrase

end SketchPrep
