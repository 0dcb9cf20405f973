import SketchPrep.Proofs.Syntax.Reading

/-!
Two readers that do the same from a stream on. They keep a property of streams that tokens may be
taken off, all their errors have another, and it is known how many tokens they take at least. Here
are the rules for composed readers, loops among them.
-/

namespace SketchPrep

namespace Syntax

theorem Stream.left_advance_le (s : Stream) : s.advance.left ≤ s.left := by
  rw [s.left_eq, s.advance.left_eq, s.advance_ahead, List.length_tail]
  exact Nat.sub_le _ _

theorem Stream.left_advance_lt {s : Stream} (h : ¬s.atEnd) : s.advance.left < s.left := by
  have ahead := congrArg List.length (Stream.ahead_eq_cons h)
  rw [List.length_cons, ← s.left_eq, ← s.advance.left_eq] at ahead
  omega

namespace Reader

/-- `P` stays true while tokens are taken, and the errors of streams with `P` have `E`. -/
structure Invariant (P : Stream → Prop) (E : SyntaxError → Prop) : Prop where
  advance : ∀ s, P s → P s.advance
  begin : ∀ s, P s → P { s with decisionStart := s.lo }
  unexpected : ∀ s expected, P s → E (s.unexpected expected)
  noViable : ∀ s, P s → E s.noViable

/-- The same result: a value with a stream, both with `Q`, or an error with `E`. -/
inductive SameResult {α : Type} (Q : α → Stream → Prop) (E : SyntaxError → Prop) :
    Except SyntaxError (α × Stream) → Except SyntaxError (α × Stream) → Prop
  | ok {a : α} {t : Stream} (h : Q a t) : SameResult Q E (.ok (a, t)) (.ok (a, t))
  | error {e : SyntaxError} (he : E e) : SameResult Q E (.error e) (.error e)

namespace SameResult

variable {α β : Type} {Q : α → Stream → Prop} {R : β → Stream → Prop} {E : SyntaxError → Prop}
  {x x' : Except SyntaxError (α × Stream)} {s : Stream}

theorem mono {Q' : α → Stream → Prop} (h : SameResult Q E x x') (le : ∀ a t, Q a t → Q' a t) :
    SameResult Q' E x x' := by
  cases h with
  | ok h => exact .ok (le _ _ h)
  | error he => exact .error he

theorem bind {r r' : Reader α} {f f' : α → Reader β} (h : SameResult Q E (r s) (r' s))
    (hf : ∀ a t, Q a t → SameResult R E (f a t) (f' a t)) :
    SameResult R E ((r >>= f) s) ((r' >>= f') s) := by
  change SameResult R E (Except.bind (r s) fun p => f p.1 p.2)
    (Except.bind (r' s) fun p => f' p.1 p.2)
  generalize r s = x, r' s = x' at h
  cases h with
  | ok h => exact hf _ _ h
  | error he => exact .error he

end SameResult

/-- From `s` on both readers do the same. If they succeed, they take `k` tokens at least and come to
a stream with `P`. -/
def Alike (P : Stream → Prop) (E : SyntaxError → Prop) {α : Type} (k : Nat) (r r' : Reader α)
    (s : Stream) : Prop :=
  SameResult (fun _ t => P t ∧ t.left + k ≤ s.left) E (r s) (r' s)

/-- As `Alike`, for readers that take a token at least if they find something. -/
def AlikeIf (P : Stream → Prop) (E : SyntaxError → Prop) {α : Type} (r r' : Reader (Option α))
    (s : Stream) : Prop :=
  SameResult (fun a t => P t ∧ t.left + a.toList.length ≤ s.left) E (r s) (r' s)

variable {P : Stream → Prop} {E : SyntaxError → Prop} {α β : Type} {j k : Nat} {s : Stream}

theorem bind_of_ok {r : Reader α} {k : α → Reader β} {a : α} {t : Stream} (h : r s = .ok (a, t)) :
    (r >>= k) s = k a t := by
  change Except.bind (r s) (fun p => k p.1 p.2) = _
  rw [h]
  rfl

/-! ### Loops, one turn at a time -/

theorem manyWhile_stop {more : Stream → Bool} {item : Reader α} (h : ¬more s) :
    manyWhile more item s = .ok ([], s) := by
  rw [manyWhile, if_neg h]

theorem manyWhile_turn {more : Stream → Bool} {item : Reader α} {a : α} {as : List α}
    {t u : Stream} (h : more s) (hi : item s = .ok (a, t)) (lt : t.left < s.left)
    (others : manyWhile more item t = .ok (as, u)) :
    manyWhile more item s = .ok (a :: as, u) := by
  rw [manyWhile, if_pos h, hi]
  simp only [lt, if_true, others]

theorem sepEndBy_stop {sep : String} {more : Stream → Bool} {item : Reader α} (h : ¬more s) :
    sepEndBy sep more item s = .ok ([], s) := by
  rw [sepEndBy, if_neg h]

theorem sepEndBy_turn {sep : String} {more : Stream → Bool} {item : Reader α} {a : α}
    {as : List α} {t u : Stream} (h : more s) (hi : item s = .ok (a, t))
    (again : t.isAt sep && t.advance.left < s.left)
    (others : sepEndBy sep more item t.advance = .ok (as, u)) :
    sepEndBy sep more item s = .ok (a :: as, u) := by
  rw [sepEndBy, if_pos h, hi]
  simp only [again, if_true, others]

theorem sepEndBy_last {sep : String} {more : Stream → Bool} {item : Reader α} {a : α} {t : Stream}
    (h : more s) (hi : item s = .ok (a, t)) (again : ¬(t.isAt sep && t.advance.left < s.left)) :
    sepEndBy sep more item s = .ok ([a], t) := by
  rw [sepEndBy, if_pos h, hi]
  simp only [again, if_false, Bool.false_eq_true]

theorem extend_stop {step : α → Reader (Option α)} {a : α} {t : Stream}
    (h : step a s = .ok (none, t)) : extend step a s = .ok (a, t) := by
  rw [extend, h]

theorem extend_turn {step : α → Reader (Option α)} {a b c : α} {t u : Stream}
    (h : step a s = .ok (some b, t)) (lt : t.left < s.left)
    (others : extend step b t = .ok (c, u)) : extend step a s = .ok (c, u) := by
  rw [extend, h]
  simp only [lt, if_true, others]

theorem extend_last {step : α → Reader (Option α)} {a b : α} {t : Stream}
    (h : step a s = .ok (some b, t)) (lt : ¬t.left < s.left) : extend step a s = .ok (b, t) := by
  rw [extend, h]
  simp only [lt, if_false]

/-- An item that takes nothing is the last one. -/
theorem manyWhile_last {more : Stream → Bool} {item : Reader α} {a : α} {t : Stream} (h : more s)
    (hi : item s = .ok (a, t)) (lt : ¬t.left < s.left) :
    manyWhile more item s = .ok ([a], t) := by
  rw [manyWhile, if_pos h, hi]
  simp only [lt, if_false]

theorem manyWhile_eq (more : Stream → Bool) (item : Reader α) (s : Stream) :
    manyWhile more item s =
      (if more s then item >>= fun a next =>
        if next.left < s.left then (List.cons a <$> manyWhile more item) next else .ok ([a], next)
      else pure []) s := by
  rw [manyWhile]
  split
  · simp only [Bind.bind, StateT.bind, Except.bind]
    cases item s with
    | error => rfl
    | ok next =>
      simp only
      split
      · simp only [Functor.map, StateT.map, Bind.bind, Except.bind]
        cases manyWhile more item next.2 <;> rfl
      · rfl
  · rfl

theorem sepEndBy_eq (sep : String) (more : Stream → Bool) (item : Reader α) (s : Stream) :
    sepEndBy sep more item s =
      (if more s then item >>= fun a next =>
        if next.isAt sep && next.advance.left < s.left then
          (List.cons a <$> sepEndBy sep more item) next.advance
        else .ok ([a], next)
      else pure []) s := by
  rw [sepEndBy]
  split
  · simp only [Bind.bind, StateT.bind, Except.bind]
    cases item s with
    | error => rfl
    | ok next =>
      simp only
      split
      · simp only [Functor.map, StateT.map, Bind.bind, Except.bind]
        cases sepEndBy sep more item next.2.advance <;> rfl
      · rfl
  · rfl

theorem extend_eq (step : α → Reader (Option α)) (a : α) (s : Stream) :
    extend step a s = (step a >>= fun b? next =>
      match b? with
      | none => .ok (a, next)
      | some b => if next.left < s.left then extend step b next else .ok (b, next)) s := by
  rw [extend]
  simp only [Bind.bind, StateT.bind, Except.bind]
  cases step a s with
  | error => rfl
  | ok read =>
    obtain ⟨_ | b, next⟩ := read
    · rfl
    · rfl

namespace Alike

variable {r r' q q' : Reader α}

theorem same (h : Alike P E k r r' s) : r s = r' s := by
  unfold Alike at h
  generalize r s = x, r' s = x' at h
  cases h <;> rfl

theorem of_ok {a : α} {t : Stream} (h : Alike P E k r r' s) (hr : r s = .ok (a, t)) :
    P t ∧ t.left + k ≤ s.left := by
  unfold Alike at h
  rw [hr] at h
  generalize r' s = x' at h
  cases h with
  | ok h => exact h

theorem of_error {e : SyntaxError} (h : Alike P E k r r' s) (hr : r s = .error e) : E e := by
  unfold Alike at h
  rw [hr] at h
  generalize r' s = x' at h
  cases h with
  | error he => exact he

/-- The other tokens are taken before. -/
theorem behind {t : Stream} (h : Alike P E j r r' t) (le : t.left + k ≤ s.left + j) :
    SameResult (fun _ u => P u ∧ u.left + k ≤ s.left) E (r t) (r' t) :=
  SameResult.mono h fun _ _ ⟨hu, fits⟩ => ⟨hu, by omega⟩

/-- What is taken is not counted. -/
theorem last (h : Alike P E k r r' s) : Alike P E 0 r r' s := h.behind (by omega)

theorem pure {a : α} (hs : P s) : Alike P E 0 (Pure.pure a) (Pure.pure a) s :=
  .ok ⟨hs, Nat.le_refl _⟩

theorem get {f f' : Stream → Reader α} (h : Alike P E k (f s) (f' s) s) :
    Alike P E k (get >>= f) (get >>= f') s := h

theorem bind {f f' : α → Reader β} (hr : Alike P E j r r' s)
    (hf : ∀ a t, P t → t.left + j ≤ s.left → Alike P E (k - j) (f a) (f' a) t) :
    Alike P E k (r >>= f) (r' >>= f') s :=
  SameResult.bind hr fun a t ⟨ht, le⟩ => (hf a t ht le).behind (by omega)

/-- The first reader takes all the tokens that count. -/
theorem bindLast {f f' : α → Reader β} (hr : Alike P E k r r' s)
    (hf : ∀ a t, P t → t.left + k ≤ s.left → Alike P E 0 (f a) (f' a) t) :
    Alike P E k (r >>= f) (r' >>= f') s :=
  SameResult.bind hr fun a t ⟨ht, le⟩ => (hf a t ht le).behind (by omega)

theorem bindIf {r r' : Reader (Option α)} {f f' : Option α → Reader β} (hr : AlikeIf P E r r' s)
    (some : ∀ a t, P t → t.left + 1 ≤ s.left → Alike P E (k - 1) (f (some a)) (f' (some a)) t)
    (none : ∀ t, P t → t.left ≤ s.left → Alike P E k (f none) (f' none) t) :
    Alike P E k (r >>= f) (r' >>= f') s :=
  SameResult.bind hr fun a t ⟨ht, le⟩ => by
    cases a with
    | some a => exact (some a t ht le).behind (by simp at le; omega)
    | none => exact (none t ht le).behind (by simp at le; omega)

theorem map (f : α → β) (hr : Alike P E k r r' s) : Alike P E k (f <$> r) (f <$> r') s := by
  have composed :
      Alike P E k (r >>= fun a => Pure.pure (f a)) (r' >>= fun a => Pure.pure (f a)) s :=
    hr.bindLast fun _ _ ht _ => .pure ht
  exact composed

theorem ite {c : Prop} [Decidable c] (yes : c → Alike P E k r r' s)
    (no : ¬c → Alike P E k q q' s) : Alike P E k (if c then r else q) (if c then r' else q') s := by
  split
  · exact yes ‹_›
  · exact no ‹_›

theorem failWith {describe : Stream → SyntaxError} (h : E (describe s)) :
    Alike P E k (failWith (α := α) describe) (failWith describe) s := .error h

theorem foresee {r r' : Reader Bool} (h : Alike P E 0 r r' s) (hs : P s) :
    Alike P E 0 (foresee r) (foresee r') s := by
  unfold Alike Reader.foresee
  rw [h.same]
  cases r' s with
  | ok => exact .ok ⟨hs, Nat.le_refl _⟩
  | error => exact .ok ⟨hs, Nat.le_refl _⟩

theorem onlyIf {c : Stream → Prop} [DecidablePred c] (yes : c s → Alike P E k r r' s)
    (no : ¬c s → Alike P E k q q' s) :
    Alike P E k (fun t => if c t then r t else q t) (fun t => if c t then r' t else q' t) s := by
  unfold Alike
  simp only
  split
  · exact yes ‹_›
  · exact no ‹_›

/-- The items need only be alike on what the loop leaves of the stream. -/
theorem manyWhile {more : Stream → Bool} {s : Stream}
    (item : ∀ t, P t → t.left ≤ s.left → Alike P E 0 r r' t) (hs : P s) :
    Alike P E 0 (manyWhile more r) (manyWhile more r') s := by
  unfold Alike
  rw [manyWhile_eq, manyWhile_eq]
  refine ite (fun _ => (item s hs (Nat.le_refl _)).bind fun a t ht le => ?_) fun _ => .pure hs
  refine onlyIf (fun shorter => ?_) fun _ => .ok ⟨ht, Nat.le_refl _⟩
  exact (manyWhile (fun u hu fits => item u hu (by omega)) ht).map _
termination_by s.left

theorem sepEndBy {sep : String} {more : Stream → Bool} {s : Stream}
    (advance : ∀ s, P s → P s.advance)
    (item : ∀ t, P t → t.left ≤ s.left → Alike P E 0 r r' t) (hs : P s) :
    Alike P E 0 (sepEndBy sep more r) (sepEndBy sep more r') s := by
  unfold Alike
  rw [sepEndBy_eq, sepEndBy_eq]
  refine ite (fun _ => (item s hs (Nat.le_refl _)).bind fun a t ht le => ?_) fun _ => .pure hs
  refine onlyIf (fun shorter => ?_) fun _ => .ok ⟨ht, Nat.le_refl _⟩
  have left := t.left_advance_le
  have shorter : t.advance.left < s.left := of_decide_eq_true (Bool.and_eq_true_iff.1 shorter).2
  have rest : Alike P E 0 (Reader.sepEndBy sep more r) (Reader.sepEndBy sep more r') t.advance :=
    sepEndBy advance (fun u hu fits => item u hu (by omega)) (advance t ht)
  exact (rest.map (List.cons a)).behind (by omega)
termination_by s.left

theorem extend {step step' : α → Reader (Option α)} {a : α} {s : Stream}
    (hstep : ∀ a t, P t → t.left ≤ s.left → AlikeIf P E (step a) (step' a) t) (hs : P s) :
    Alike P E 0 (extend step a) (extend step' a) s := by
  unfold Alike
  rw [extend_eq, extend_eq]
  refine bindIf (hstep a s hs (Nat.le_refl _)) (fun b t ht le => ?_)
    fun t ht _ => .ok ⟨ht, Nat.le_refl _⟩
  refine onlyIf (fun shorter => ?_) fun _ => .ok ⟨ht, Nat.le_refl _⟩
  exact extend (fun b u hu fits => hstep b u hu (by omega)) ht
termination_by s.left

end Alike

namespace AlikeIf

theorem none (hs : P s) : AlikeIf P E (α := α) (Pure.pure none) (Pure.pure none) s :=
  .ok ⟨hs, Nat.le_refl _⟩

theorem of_alike {r r' : Reader (Option α)} (h : Alike P E 1 r r' s) : AlikeIf P E r r' s :=
  SameResult.mono h fun a _ ⟨ht, le⟩ => ⟨ht, by cases a <;> simp <;> omega⟩

theorem get {f f' : Stream → Reader (Option α)} (h : AlikeIf P E (f s) (f' s) s) :
    AlikeIf P E (get >>= f) (get >>= f') s := h

theorem bind {r r' : Reader α} {f f' : α → Reader (Option β)} (hr : Alike P E 0 r r' s)
    (hf : ∀ a t, P t → t.left ≤ s.left → AlikeIf P E (f a) (f' a) t) :
    AlikeIf P E (r >>= f) (r' >>= f') s :=
  SameResult.bind hr fun a t ⟨ht, le⟩ =>
    SameResult.mono (hf a t ht le) fun _ _ ⟨hu, fits⟩ => ⟨hu, Nat.le_trans fits le⟩

theorem ite {c : Prop} [Decidable c] {r r' q q' : Reader (Option α)}
    (yes : c → AlikeIf P E r r' s) (no : ¬c → AlikeIf P E q q' s) :
    AlikeIf P E (if c then r else q) (if c then r' else q') s := by
  split
  · exact yes ‹_›
  · exact no ‹_›

end AlikeIf

namespace Invariant

variable (inv : Invariant P E) (hs : P s)

include inv hs

theorem take : Alike P E 0 take take s := .ok ⟨inv.advance s hs, s.left_advance_le⟩

theorem takeIdent : Alike P E 0 takeIdent takeIdent s := .ok ⟨inv.advance s hs, s.left_advance_le⟩

/-- The end of input is no token that can be taken. -/
theorem takeSome (h : ¬s.atEnd) : Alike P E 1 Reader.take Reader.take s :=
  .ok ⟨inv.advance s hs, Stream.left_advance_lt h⟩

theorem takeName (h : ¬s.atEnd) : Alike P E 1 Reader.takeIdent Reader.takeIdent s :=
  .ok ⟨inv.advance s hs, Stream.left_advance_lt h⟩

theorem eat (w : String) : Alike P E 0 (eat w) (eat w) s := by
  unfold Alike Reader.eat
  split
  · exact .ok ⟨inv.advance s hs, s.left_advance_le⟩
  · exact .ok ⟨hs, Nat.le_refl _⟩

/-- A token is taken if the word is there. -/
theorem eatIte {w : String} {r r' q q' : Reader α}
    (yes : ∀ t, P t → t.left + 1 ≤ s.left → Alike P E (k - 1) r r' t)
    (no : Alike P E k q q' s) :
    Alike P E k (Reader.eat w >>= fun b => if b = true then r else q)
      (Reader.eat w >>= fun b => if b = true then r' else q') s := by
  unfold Alike
  rw [eat_bind, eat_bind]
  by_cases h : s.isAt w
  · have lt := Stream.left_advance_lt (Stream.not_atEnd_of_isAt h)
    rw [if_pos h, if_pos h]
    exact (yes _ (inv.advance s hs) lt).behind (by omega)
  · rw [if_neg h, if_neg h]
    exact no

theorem eatIf {w : String} {r r' q q' : Reader (Option α)}
    (yes : ∀ t, P t → t.left + 1 ≤ s.left → Alike P E 0 r r' t) (no : AlikeIf P E q q' s) :
    AlikeIf P E (Reader.eat w >>= fun b => if b = true then r else q)
      (Reader.eat w >>= fun b => if b = true then r' else q') s := by
  unfold AlikeIf
  rw [eat_bind, eat_bind]
  by_cases h : s.isAt w
  · have lt := Stream.left_advance_lt (Stream.not_atEnd_of_isAt h)
    have taken : Alike P E 1 (fun _ => r s.advance) (fun _ => r' s.advance) s :=
      (yes _ (inv.advance s hs) lt).behind (by omega)
    rw [if_pos h, if_pos h]
    exact AlikeIf.of_alike taken
  · rw [if_neg h, if_neg h]
    exact no

theorem expect (w : String) : Alike P E 1 (expect w) (expect w) s := by
  unfold Alike Reader.expect
  by_cases h : s.isAt w
  · rw [if_pos h]
    exact .ok ⟨inv.advance s hs, Stream.left_advance_lt (Stream.not_atEnd_of_isAt h)⟩
  · rw [if_neg h]
    exact .error (inv.unexpected s _ hs)

theorem identifier : Alike P E 1 identifier identifier s := by
  unfold Alike Reader.identifier
  by_cases h : s.isAtKind .identifier
  · rw [if_pos h]
    exact inv.takeName hs (Stream.not_atEnd_of_isAtKind h (by decide))
  · rw [if_neg h]
    exact .error (inv.unexpected s _ hs)

theorem beginDecision : Alike P E 0 beginDecision beginDecision s :=
  .ok ⟨inv.begin s hs, Nat.le_refl _⟩

theorem fails (es : List Expectation) :
    Alike P E k (failWith (α := α) (·.unexpected es)) (failWith (·.unexpected es)) s :=
  .failWith (inv.unexpected s es hs)

theorem failsNoViable :
    Alike P E k (failWith (α := α) Stream.noViable) (failWith Stream.noViable) s :=
  .failWith (inv.noViable s hs)

section

variable {r r' : Reader α}

theorem sepBy (item : ∀ t, P t → t.left ≤ s.left → Alike P E k r r' t) (sep : String) :
    Alike P E k (sepBy sep r) (sepBy sep r') s := by
  refine (item s hs (Nat.le_refl _)).bindLast fun _ t ht le => ?_
  refine (Alike.manyWhile (fun u hu fits => ?_) ht).bind fun _ u hu _ => .pure hu
  exact (inv.take hu).bind fun _ v hv less => (item v hv (by omega)).last

theorem closeList (item : ∀ t, P t → t.left ≤ s.left → Alike P E k r r' t) :
    Alike P E 1 (closeList r) (closeList r') s := by
  refine .get (.ite (fun _ => ?_) fun _ => ?_)
  · exact (Alike.pure hs).bind fun _ t ht le => (inv.expect ht _).bind fun _ u hu _ => .pure hu
  · refine (inv.sepBy hs item _).last.bind fun _ t ht le => ?_
    exact (inv.expect ht _).bind fun _ u hu _ => .pure hu

/-- The list is read behind its parenthesis. -/
theorem parenList (item : ∀ t, P t → t.left < s.left → Alike P E k r r' t) :
    Alike P E 1 (parenList r) (parenList r') s :=
  (inv.expect hs _).bind fun _ _ ht le =>
    (inv.closeList ht fun u hu fits => item u hu (by omega)).last

end

end Invariant

end Reader

end Syntax

end SketchPrep
