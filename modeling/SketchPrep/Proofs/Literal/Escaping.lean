import SketchPrep.Literal

/-!
Texts written in ASCII. Main statements: `isAscii_of_mem_escapeUnicode`, nothing else is left;
`escapeUnicode_of_ascii`, a text in ASCII stays as it is; `count_escapeUnicode`, so do the lines of
a text.
-/

namespace SketchPrep.Literal

open Text CharClass

variable {a b text : Text} {c d : Char}

theorem isAscii_hexDigit {n : Nat} (h : n < 16) : isAscii (hexDigit n) ∧ hexDigit n ≠ '\n' := by
  have digits : ∀ n < 16, isAscii (hexDigit n) ∧ hexDigit n ≠ '\n' := by decide
  exact digits n h

theorem isAscii_of_mem_escapeUnit {unit : Nat} (h : d ∈ escapeUnit unit) :
    isAscii d ∧ d ≠ '\n' := by
  have digit (n : Nat) : isAscii (hexDigit (n % 16)) ∧ hexDigit (n % 16) ≠ '\n' :=
    isAscii_hexDigit (Nat.mod_lt _ (by decide))
  simp only [escapeUnit, List.mem_cons, List.not_mem_nil, or_false] at h
  rcases h with rfl | rfl | rfl | rfl | rfl | rfl
  · decide
  · decide
  all_goals exact digit _

/-- A character beyond ASCII is written in ASCII on one line. -/
theorem isAscii_of_mem_escapeChar (hc : isAscii c = false) (h : d ∈ escapeChar c) :
    isAscii d ∧ d ≠ '\n' := by
  rw [escapeChar, hc, if_neg Bool.false_ne_true] at h
  split at h
  · rw [List.mem_singleton.1 h]
    decide
  · obtain ⟨unit, -, hd⟩ := List.mem_flatMap.1 h
    exact isAscii_of_mem_escapeUnit hd

theorem escapeChar_of_isAscii (h : isAscii c) : escapeChar c = [c] := by
  simp [escapeChar, h]

theorem escapeChar_ne_nil (c : Char) : escapeChar c ≠ [] := by
  unfold escapeChar
  split
  · simp
  · split
    · simp
    · unfold units
      split <;> simp [escapeUnit]

theorem count_escapeChar (c : Char) : (escapeChar c).count '\n' = [c].count '\n' := by
  cases hc : isAscii c with
  | true => rw [escapeChar_of_isAscii hc]
  | false =>
    have other : c ≠ '\n' := by
      rintro rfl
      cases hc
    have noBreak : '\n' ∉ escapeChar c := fun h => (isAscii_of_mem_escapeChar hc h).2 rfl
    rw [List.count_eq_zero_of_not_mem noBreak, List.count_singleton]
    simp [other]

/-! ### Texts -/

@[simp] theorem escapeUnicode_nil : escapeUnicode [] = [] := rfl

theorem escapeUnicode_singleton (c : Char) : escapeUnicode [c] = escapeChar c := by
  simp [escapeUnicode]

theorem escapeUnicode_cons (c : Char) (cs : Text) :
    escapeUnicode (c :: cs) = escapeChar c ++ escapeUnicode cs := List.flatMap_cons

@[simp] theorem escapeUnicode_append (a b : Text) :
    escapeUnicode (a ++ b) = escapeUnicode a ++ escapeUnicode b := List.flatMap_append

@[simp] theorem escapeUnicode_eq_nil_iff : escapeUnicode text = [] ↔ text = [] := by
  cases text with
  | nil => simp
  | cons c cs => simp [escapeUnicode, escapeChar_ne_nil]

theorem escapeUnicode_of_ascii (h : ∀ c ∈ text, isAscii c) : escapeUnicode text = text := by
  induction text with
  | nil => rfl
  | cons c cs ih =>
    have rest : escapeUnicode cs = cs := ih fun d hd => h d (.tail _ hd)
    rw [escapeUnicode_cons, rest, escapeChar_of_isAscii (h c (.head _)), List.singleton_append]

theorem isAscii_of_mem_escapeUnicode (h : d ∈ escapeUnicode text) : isAscii d := by
  obtain ⟨c, -, hd⟩ := List.mem_flatMap.1 h
  cases hc : isAscii c with
  | true =>
    rw [escapeChar_of_isAscii hc, List.mem_singleton] at hd
    exact hd ▸ hc
  | false => exact (isAscii_of_mem_escapeChar hc hd).1

theorem count_escapeUnicode (text : Text) :
    (escapeUnicode text).count '\n' = text.count '\n' := by
  induction text with
  | nil => rfl
  | cons c cs ih =>
    rw [escapeUnicode_cons, List.count_append, ih, count_escapeChar, ← List.count_append,
      List.singleton_append]

end SketchPrep.Literal
