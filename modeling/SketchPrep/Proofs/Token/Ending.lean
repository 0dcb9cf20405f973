import SketchPrep.Proofs.Token.Append

/-!
How lexemes end. Main statement: `IsLexeme.exists_last`, the last character of a lexeme is no blank.
-/

namespace SketchPrep.Token.Lexer

variable {c : Char} {cs w rest : Text} {k : Kind} {n : Nat}

theorem not_isBlank_of_startsName (h : startsName c) : isBlank c = false :=
  (no_gap_of_startsName h).1

theorem not_isBlank {p : Char → Bool} (h : p c)
    (none : [' ', '\t', '\r', '\n', '\x0c', ';', '\x7d'].all fun d => !p d) : isBlank c = false := by
  refine Bool.eq_false_iff.2 fun blank => ?_
  rw [eq_false_of_isStop (isStop_of_isBlank blank) none] at h
  cases h

/-- A number that takes the whole text has no blank in it. -/
theorem IsNumber.not_isBlank (h : IsNumber w k) (hw : ∀ c ∈ w.head?, isBlank c = false) :
    ∀ c ∈ w, isBlank c = false := by
  intro c hc
  refine Bool.eq_false_iff.2 fun blank => ?_
  obtain ⟨u, x, rfl⟩ := List.append_of_mem hc
  have begins : u ≠ [] := by
    rintro rfl
    rw [hw c rfl] at blank
    cases blank
  have starts : StartsStop (c :: x) := fun d hd => Option.some.inj hd ▸ isStop_of_isBlank blank
  have measured := starts.number_append begins
  have le := number_le u
  rw [← measured, show number (u ++ c :: x) = _ from h] at le
  rw [List.length_append, List.length_cons] at le
  omega

theorem not_isBlank_of_isSign (h : IsSign w) : ∀ c ∈ w, isBlank c = false := by
  have all : ((signs ++ signTails).all fun c => !isBlank c) = true := by decide
  have none : ∀ c ∈ signs ++ signTails, isBlank c = false := by
    simpa only [List.all_eq_true, Bool.not_eq_true'] using all
  obtain ⟨c, hc, tail, rfl⟩ := h.head
  intro d hd
  rcases List.mem_cons.1 hd with rfl | hd
  · exact none d (List.mem_append_left _ hc)
  · exact none d (List.mem_append_right _ (h.tail d hd))

theorem exists_take_quoted {quote : Char} (h : quoted quote cs = (true, n)) :
    ∃ u, cs.take n = u ++ [quote] := by
  fun_induction quoted quote cs generalizing n with
  | case1 c cs ih =>
    obtain ⟨closed, rfl⟩ := Prod.mk.inj h
    obtain ⟨u, hu⟩ := ih (Prod.ext closed rfl)
    refine ⟨'\\' :: c :: u, ?_⟩
    change ('\\' :: c :: cs).take (2 + (quoted quote cs).2) = _
    rw [show 2 + (quoted quote cs).2 = (quoted quote cs).2 + 1 + 1 by omega,
      List.take_succ_cons, List.take_succ_cons, hu]
    rfl
  | case2 => cases h
  | case3 cs =>
    obtain ⟨-, rfl⟩ := Prod.mk.inj h
    exact ⟨[], rfl⟩
  | case4 c cs _ _ _ ih =>
    obtain ⟨closed, rfl⟩ := Prod.mk.inj h
    obtain ⟨u, hu⟩ := ih (Prod.ext closed rfl)
    refine ⟨c :: u, ?_⟩
    change (c :: cs).take (1 + (quoted quote cs).2) = _
    rw [show 1 + (quoted quote cs).2 = (quoted quote cs).2 + 1 by omega, List.take_succ_cons, hu]
    rfl
  | case5 => cases h

theorem exists_take_textBlock (h : textBlock cs = some n) : ∃ u, cs.take n = u ++ ['"'] := by
  fun_induction textBlock cs generalizing n with
  | case1 cs =>
    obtain rfl := Option.some.inj h
    exact ⟨['"', '"'], rfl⟩
  | case2 c cs ih =>
    obtain ⟨m, hm, rfl⟩ := Option.map_eq_some_iff.1 h
    obtain ⟨u, hu⟩ := ih hm
    refine ⟨'\\' :: c :: u, ?_⟩
    rw [show 2 + m = m + 1 + 1 by omega, List.take_succ_cons, List.take_succ_cons, hu]
    rfl
  | case3 c cs _ _ ih =>
    obtain ⟨m, hm, rfl⟩ := Option.map_eq_some_iff.1 h
    obtain ⟨u, hu⟩ := ih hm
    refine ⟨c :: u, ?_⟩
    rw [show 1 + m = m + 1 by omega, List.take_succ_cons, hu]
    rfl
  | case4 => cases h

theorem exists_last_of_all (hw : w ≠ []) (h : ∀ c ∈ w, isBlank c = false) :
    ∃ u d, w = u ++ [d] ∧ isBlank d = false := by
  have last := List.getLast_mem hw
  exact ⟨w.dropLast, w.getLast hw, (List.dropLast_concat_getLast hw).symm, h _ last⟩

/-- Only quotes have blanks between them. -/
theorem IsLexeme.exists_last (h : IsLexeme w k rest) :
    ∃ u d, w = u ++ [d] ∧ isBlank d = false := by
  obtain ⟨c, tail, rfl, shape⟩ := h.shape
  have whole := h.ne_nil
  generalize hn : tail.length = n at shape
  cases shape with
  | word =>
    obtain ⟨c', tail', same, first, later, -⟩ := h.exists_word (wordKind_cases _).symm
    obtain ⟨rfl, rfl⟩ := List.cons.inj same
    refine exists_last_of_all whole (List.forall_mem_cons.2 ⟨not_isBlank_of_startsName first, ?_⟩)
    exact fun d hd => not_isBlank (later d hd) (by decide)
  | number hc =>
    obtain ⟨number, -⟩ := h.isNumber (number_kind _)
    refine exists_last_of_all whole (number.not_isBlank ?_)
    rintro d hd
    obtain rfl := Option.some.inj hd
    rcases hc with hc | ⟨rfl, -⟩
    · exact (no_gap_of_isDigit hc).1
    · decide
  | color =>
    obtain ⟨tail', same, -, later⟩ := h.exists_color
    obtain ⟨rfl, rfl⟩ := List.cons.inj same
    refine exists_last_of_all whole (List.forall_mem_cons.2 ⟨by decide, ?_⟩)
    exact fun d hd => not_isBlank (later d hd) (by decide)
  | @block m hc hq hblock =>
    obtain ⟨u, hu⟩ := exists_take_textBlock hblock
    have read : (tail ++ rest).take (2 + m) = (tail ++ rest).take 2 ++ (u ++ ['"']) := by
      rw [List.take_add, hu]
    rw [← hn, List.take_left] at read
    exact ⟨c :: ((tail ++ rest).take 2 ++ u), '"',
      by rw [List.cons_append, List.append_assoc, ← read], by decide⟩
  | @string m hc _ hquoted =>
    obtain ⟨u, hu⟩ := exists_take_quoted hquoted
    rw [← hn, List.take_left] at hu
    exact ⟨c :: u, '"', by rw [hu, List.cons_append], by decide⟩
  | @char m hc hquoted =>
    obtain ⟨u, hu⟩ := exists_take_quoted hquoted
    rw [← hn, List.take_left] at hu
    exact ⟨c :: u, '\'', by rw [hu, List.cons_append], by decide⟩
  | sign => exact exists_last_of_all whole (not_isBlank_of_isSign h.exists_sign.1)

end SketchPrep.Token.Lexer
