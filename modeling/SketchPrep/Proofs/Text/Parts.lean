import SketchPrep.Text.Search

/-!
What the searches for parts of a text find. Main statements: `hasPart_iff`, a part is found just
where it occurs; `splitLastPart?_append`, a text is cut at a part that does not occur behind it;
`splitAll_eq_splitOn`, the parts between characters are those of the library.
-/

namespace SketchPrep.Text

variable {part cs : Text}

theorem after?_eq_none {start : Text} : after? start cs = none ↔ ¬start <+: cs := by
  rw [Option.eq_none_iff_forall_ne_some]
  constructor
  · rintro h ⟨rest, rfl⟩
    exact h rest (after?_eq_some.2 rfl)
  · intro h rest found
    exact h ⟨rest, (after?_eq_some.1 found).symm⟩

theorem hasPart_iff : hasPart part cs ↔ part <:+: cs := by
  induction cs with
  | nil =>
    rw [hasPart, splitFirst?, List.infix_nil]
    split <;> simp_all
  | cons c cs ih =>
    rw [List.infix_cons_iff, ← ih, hasPart, splitFirst?]
    cases first : after? part (c :: cs) with
    | some rest => simp [after?_eq_some.1 first]
    | none =>
      have later : ¬part <+: c :: cs := after?_eq_none.1 first
      simp [later, hasPart]

/-- A part that begins with a character which is not in front begins behind the front. -/
theorem infix_of_infix_append {c : Char} {a b : Text} (hpart : part.head? = some c) (hc : c ∉ a)
    (h : part <:+: a ++ b) : part <:+: b := by
  obtain ⟨tail, rfl⟩ := List.head?_eq_some_iff.1 hpart
  induction a with
  | nil => exact h
  | cons d a ih =>
    rw [List.mem_cons, not_or] at hc
    refine ih hc.2 ((List.infix_cons_iff.1 h).resolve_left ?_)
    rintro ⟨rest, same⟩
    exact hc.1 (List.cons.inj same).1

theorem splitLastPart?_eq_none (h : ¬part <:+: cs) : splitLastPart? part cs = none := by
  induction cs with
  | nil =>
    rw [splitLastPart?, if_neg]
    rintro rfl
    exact h List.nil_infix
  | cons c cs ih =>
    rw [List.infix_cons_iff, not_or] at h
    rw [splitLastPart?, ih h.2, after?_eq_none.2 h.1]
    rfl

theorem splitLastPart?_append {a b : Text} (hpart : part ≠ [])
    (h : ¬part <:+: part.tail ++ b) : splitLastPart? part (a ++ part ++ b) = some (a, b) := by
  induction a with
  | nil =>
    obtain ⟨c, part, rfl⟩ := List.exists_cons_of_ne_nil hpart
    have here : after? (c :: part) (c :: (part ++ b)) = some b := after?_eq_some.2 rfl
    rw [List.tail_cons] at h
    rw [List.nil_append, List.cons_append, splitLastPart?, splitLastPart?_eq_none h, here]
    rfl
  | cons d a ih =>
    rw [List.cons_append, List.cons_append, splitLastPart?, ih]

theorem mem_of_mem_removeAll {c : Char} (h : c ∈ removeAll part cs) : c ∈ cs := by
  fun_induction removeAll part cs with
  | case1 => exact h
  | case2 => exact h
  | case3 d cs hpart rest found ih =>
    rw [after?_eq_some.1 found]
    exact List.mem_append_right part (ih h)
  | case4 d cs hpart found ih =>
    rw [List.mem_cons] at h ⊢
    exact h.imp_right ih

theorem removeAll_eq_self (h : ¬part <:+: cs) : removeAll part cs = cs := by
  induction cs with
  | nil => rw [removeAll]
  | cons c cs ih =>
    rw [List.infix_cons_iff, not_or] at h
    rw [removeAll]
    split
    · rfl
    · split
      · rename_i rest found
        exact absurd ⟨rest, (after?_eq_some.1 found).symm⟩ h.1
      · rw [ih h.2]

theorem removeAll_append (hpart : part ≠ []) (cs : Text) :
    removeAll part (part ++ cs) = removeAll part cs := by
  obtain ⟨c, tail, rfl⟩ := List.exists_cons_of_ne_nil hpart
  rw [List.cons_append, removeAll, if_neg hpart]
  split
  · rename_i rest found
    rw [List.append_cancel_left (after?_eq_some.1 found)]
  · rename_i none
    exact absurd (List.prefix_append (c :: tail) cs) (after?_eq_none.1 none)

theorem occurrences_eq_zero {c : Char} (h : c ∉ cs) : occurrences (c :: part) cs = 0 := by
  fun_induction occurrences (c :: part) cs with
  | case1 hpart => cases hpart
  | case2 => rfl
  | case3 d cs hpart => cases hpart
  | case4 d cs hpart rest found ih =>
    have whole := after?_eq_some.1 found
    rw [whole] at h
    exact absurd List.mem_cons_self h
  | case5 d cs hpart found ih => exact ih fun hc => h (List.mem_cons_of_mem d hc)

theorem splitAll_eq {c : Char} (h : c ∉ cs) : splitAll c cs = [cs] := by
  induction cs with
  | nil => rfl
  | cons d cs ih =>
    rw [List.mem_cons, not_or] at h
    rw [splitAll, if_neg (Ne.symm h.1), ih h.2]

/-! ### Single characters -/

theorem splitAll_eq_splitOn (c : Char) (cs : Text) : splitAll c cs = cs.splitOn c := by
  induction cs with
  | nil => rfl
  | cons d cs ih =>
    rw [splitAll, ih, List.splitOn_cons_eq_if_modifyHead]
    cases parts : cs.splitOn c with
    | nil => exact absurd parts (List.splitOn_ne_nil c cs)
    | cons p ps => simp

theorem splitLast?_eq_none {c : Char} (h : c ∉ cs) : splitLast? c cs = none := by
  induction cs with
  | nil => rfl
  | cons d cs ih =>
    rw [List.mem_cons, not_or] at h
    rw [splitLast?, ih h.2]
    exact if_neg (Ne.symm h.1)

theorem splitLast?_append {c : Char} {rest : Text} (h : c ∉ rest) (before : Text) :
    splitLast? c (before ++ c :: rest) = some (before, rest) := by
  induction before with
  | nil =>
    rw [List.nil_append, splitLast?, splitLast?_eq_none h]
    exact if_pos rfl
  | cons d before ih => rw [List.cons_append, splitLast?, ih]

theorem intercalate_concat {ps : List Text} (h : ps ≠ []) (sep p : Text) :
    sep.intercalate (ps ++ [p]) = sep.intercalate ps ++ (sep ++ p) := by
  induction ps with
  | nil => exact absurd rfl h
  | cons q ps ih =>
    cases ps with
    | nil => simp
    | cons r ps =>
      have rest := ih (List.cons_ne_nil r ps)
      rw [List.cons_append] at rest
      simp only [List.cons_append, List.intercalate_cons_cons, rest, List.append_assoc]

theorem mem_of_mem_intercalate {ps : List Text} {sep : Text} {d : Char}
    (h : d ∈ sep.intercalate ps) : d ∈ sep ∨ ∃ p ∈ ps, d ∈ p := by
  induction ps with
  | nil => cases h
  | cons p ps ih =>
    cases ps with
    | nil => exact .inr ⟨p, .head _, by simpa using h⟩
    | cons q ps =>
      rw [List.intercalate_cons_cons, List.append_assoc, List.mem_append, List.mem_append] at h
      rcases h with here | here | later
      · exact .inr ⟨p, .head _, here⟩
      · exact .inl here
      · exact (ih later).imp_right fun ⟨r, hr, inside⟩ => ⟨r, .tail _ hr, inside⟩

end SketchPrep.Text
