import SketchPrep.Proofs.Syntax.Grouping

/-!
The tokens of an operator. One that begins with an angle takes a run of angles and then a sign of
equality, any other is one token. Main statements: `operator_eq`, the operator is the text of the
tokens that it takes; `joined_operator`, nothing separates them.
-/

namespace SketchPrep.Syntax

open Token

/-- Tokens that are all one sign, each right behind the one before it. -/
structure Run (sign : String) (limit : Nat) (before : Token) (ts : List Token) : Prop where
  few : ts.length ≤ limit
  signs : ∀ t ∈ ts, t.is sign
  touching : Touching (before :: ts)

theorem run_adjacent (sign : String) (limit : Nat) (before : Token) (ts : List Token) :
    Run sign limit before (adjacent sign limit before ts) := by
  fun_induction adjacent sign limit before ts with
  | case1 limit before t ts ht ih =>
    obtain ⟨is, touches⟩ : t.is sign ∧ before.stop = t.start.offset := by simpa using ht
    exact ⟨Nat.succ_le_succ ih.few, List.forall_mem_cons.2 ⟨is, ih.signs⟩, touches, ih.touching⟩
  | case2 => exact ⟨Nat.zero_le _, by simp, trivial⟩
  | case3 => exact ⟨Nat.zero_le _, by simp, trivial⟩

theorem adjacent_eq_take (sign : String) (limit : Nat) (before : Token) (ts : List Token) :
    adjacent sign limit before ts = ts.take (adjacent sign limit before ts).length := by
  fun_induction adjacent sign limit before ts with
  | case1 limit before t ts ht ih => rw [List.length_cons, List.take_succ_cons, ← ih]
  | case2 => rfl
  | case3 => rfl

theorem touching_append {first : Token} {ts us : List Token} (h : Touching (first :: ts))
    (k : Touching (ts.getLastD first :: us)) : Touching (first :: (ts ++ us)) := by
  induction ts generalizing first with
  | nil => exact k
  | cons t ts ih =>
    rw [List.getLastD_cons] at k
    exact ⟨h.1, ih h.2 k⟩

/-- The tokens behind the first one that an operator takes. -/
theorem exists_runs {first : Token} (hfirst : first.is ">") (rest : List Token) :
    ∃ angles equals, Run ">" 2 first angles ∧ Run "=" 1 (angles.getLastD first) equals ∧
      rest.take (angles.length + equals.length) = angles ++ equals ∧
      first.operator rest = (String.join ((first :: (angles ++ equals)).map text),
        angles.length + equals.length + 1) := by
  have angles := run_adjacent ">" 2 first rest
  have equals := run_adjacent "=" 1 ((adjacent ">" 2 first rest).getLastD first)
    (rest.drop (adjacent ">" 2 first rest).length)
  refine ⟨_, _, angles, equals, ?_, ?_⟩
  · rw [List.take_add, ← adjacent_eq_take, ← adjacent_eq_take]
  · rw [Token.operator, if_pos hfirst]
    refine Prod.ext rfl ?_
    dsimp only
    omega

/-- The operator is the text of the tokens that it takes, which are one or else angles and signs of
equality. -/
theorem operator_eq (first : Token) (rest : List Token) :
    ∃ n, (first.operator rest).2 = n + 1 ∧ n ≤ rest.length ∧
      (first.operator rest).1 = String.join ((first :: rest.take n).map Token.text) ∧
      ((first.operator rest).1 = first.text ∧ n = 0 ∨
        ∀ t ∈ first :: rest.take n, t.is ">" ∨ t.is "=") := by
  by_cases hfirst : first.is ">"
  · obtain ⟨angles, equals, angle, equal, taken, operator⟩ := exists_runs hfirst rest
    have bound := congrArg List.length taken
    rw [List.length_take, List.length_append] at bound
    refine ⟨angles.length + equals.length, congrArg Prod.snd operator, by omega, ?_, .inr ?_⟩
    · rw [operator, taken]
    · rw [taken, List.forall_mem_cons, List.forall_mem_append]
      exact ⟨.inl hfirst, fun t ht => .inl (angle.signs t ht), fun t ht => .inr (equal.signs t ht)⟩
  · rw [Token.operator, if_neg hfirst]
    exact ⟨0, rfl, Nat.zero_le _, by simp, .inl ⟨rfl, rfl⟩⟩

/-! ### Operators of several tokens -/

theorem text_of_is {sign : String} {t : Token} (h : t.is sign) : t.text = sign := by
  simp only [Token.is, Bool.and_eq_true, decide_eq_true_eq] at h
  exact h.2

theorem Run.texts {sign : String} {limit : Nat} {before : Token} {ts : List Token}
    (h : Run sign limit before ts) : ts.map text = List.replicate ts.length sign :=
  List.map_eq_replicate_iff.2 fun t ht => text_of_is (h.signs t ht)

/-- An operator between two operands that is written with several tokens is one of three. -/
theorem mem_of_angles {k m : Nat} (hk : k ≤ 2) (hm : m ≤ 1) (some : 0 < k + m)
    (h : (precedence? (String.join
      (">" :: (List.replicate k ">" ++ List.replicate m "=")))).isSome) :
    String.join (">" :: (List.replicate k ">" ++ List.replicate m "=")) ∈ [">=", ">>", ">>>"] := by
  have cases : k = 0 ∧ m = 1 ∨ k = 1 ∧ m = 0 ∨ k = 1 ∧ m = 1 ∨ k = 2 ∧ m = 0 ∨ k = 2 ∧ m = 1 := by
    omega
  rcases cases with ⟨rfl, rfl⟩ | ⟨rfl, rfl⟩ | ⟨rfl, rfl⟩ | ⟨rfl, rfl⟩ | ⟨rfl, rfl⟩
  · decide
  · decide
  · exact absurd h (by decide)
  · decide
  · exact absurd h (by decide)

theorem joined_operator {first : Token} {rest : List Token} {n : Nat}
    (hn : (first.operator rest).2 = n + 1) (hop : (precedence? (first.operator rest).1).isSome) :
    Joined (first.operator rest).1 (first :: rest.take n) := by
  by_cases hfirst : first.is ">"
  · obtain ⟨angles, equals, angle, equal, taken, operator⟩ := exists_runs hfirst rest
    rw [operator] at hn hop ⊢
    obtain rfl : angles.length + equals.length = n := Nat.succ.inj hn
    rw [taken]
    refine ⟨rfl, touching_append angle.touching equal.touching, ?_⟩
    have spelled : (first :: (angles ++ equals)).map text =
        ">" :: (List.replicate angles.length ">" ++ List.replicate equals.length "=") := by
      rw [List.map_cons, List.map_append, text_of_is hfirst, angle.texts, equal.texts]
    rcases Nat.eq_zero_or_pos (angles.length + equals.length) with none | several
    · left
      rw [List.length_cons, List.length_append, none]
    · right
      rw [spelled] at hop ⊢
      refine ⟨mem_of_angles angle.few equal.few several hop, ?_⟩
      rw [List.forall_mem_cons, List.forall_mem_append]
      exact ⟨.inl hfirst, fun t ht => .inl (angle.signs t ht), fun t ht => .inr (equal.signs t ht)⟩
  · rw [Token.operator, if_neg hfirst] at hn ⊢
    obtain rfl : 0 = n := Nat.succ.inj hn
    exact ⟨by simp, trivial, .inl rfl⟩

end SketchPrep.Syntax
