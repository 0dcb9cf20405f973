import SketchPrep.Token.Lexer

/-!
The measures of the lexer stay inside the text. Main statement: `lexeme_le`.
-/

namespace SketchPrep.Token.Lexer

theorem run_le (p : Char → Bool) (cs : Text) : run p cs ≤ cs.length :=
  (List.takeWhile_sublist p).length_le

/-- What ends a run stands behind it. -/
theorem run_append {p : Char → Bool} {w rest : Text} (hw : ∀ c ∈ w, p c)
    (hrest : ∀ c ∈ rest.head?, p c = false) : run p (w ++ rest) = w.length := by
  rw [run, List.takeWhile_append_of_pos hw]
  cases rest with
  | nil => simp
  | cons c rest => simp [hrest c rfl]

/-- A run that ends inside `w` does not look behind it. -/
theorem run_of_stop {p : Char → Bool} {w : Text} (h : ∃ c ∈ w, p c = false) (rest : Text) :
    run p (w ++ rest) = run p w := by
  induction w with
  | nil => simp at h
  | cons d w ih =>
    by_cases hd : p d
    · have inside : ∃ c ∈ w, p c = false := by
        obtain ⟨c, hc, hpc⟩ := h
        rcases List.mem_cons.1 hc with rfl | hc
        · simp [hd] at hpc
        · exact ⟨c, hc, hpc⟩
      simpa [run, hd] using ih inside
    · simp [run, hd]

/-- Behind `w` two texts that both end the run are alike to it. -/
theorem run_congr {p : Char → Bool} {x y : Text} (hx : ∀ c ∈ x.head?, p c = false)
    (hy : ∀ c ∈ y.head?, p c = false) (w : Text) : run p (w ++ x) = run p (w ++ y) := by
  by_cases h : ∃ c ∈ w, p c = false
  · rw [run_of_stop h, run_of_stop h]
  · have all : ∀ c ∈ w, p c := by simpa using h
    rw [run_append all hx, run_append all hy]

theorem run_append_of_head {p : Char → Bool} {x : Text} (hx : ∀ c ∈ x.head?, p c = false)
    (w : Text) : run p (w ++ x) = run p w := by
  have := run_congr (y := []) hx (by simp) w
  rwa [List.append_nil] at this

theorem forall_mem_of_run {p : Char → Bool} {cs : Text} {n : Nat} (h : n ≤ run p cs) :
    ∀ c ∈ cs.take n, p c := by
  intro c hc
  rw [run] at h
  have pre := List.takeWhile_prefix p (l := cs)
  rw [← List.take_append_drop (cs.takeWhile p).length cs,
    ← List.prefix_iff_eq_take.1 pre, List.take_append_of_le_length h] at hc
  exact List.all_eq_true.1 List.all_takeWhile c (List.mem_of_mem_take hc)

theorem head?_drop_run {p : Char → Bool} {cs : Text} :
    ∀ c ∈ (cs.drop (run p cs)).head?, p c = false := by
  induction cs with
  | nil => simp
  | cons d cs ih =>
    by_cases hd : p d
    · simpa [run, hd] using ih
    · simp [run, hd]

theorem blockComment_le (cs : Text) : blockComment cs ≤ cs.length := by
  fun_induction blockComment cs with
  | case1 => simp
  | case2 => simp; omega
  | case3 => simp

theorem fraction_le (cs : Text) : fraction cs ≤ cs.length := by
  unfold fraction
  split
  · simp
  · rename_i c cs
    have := run_le (fun c => c.isDigit || c = '_') (c :: cs)
    split
    · simp only [digits, List.length_cons] at *
      omega
    · exact Nat.zero_le _
  · exact Nat.zero_le _

theorem exponent_le (cs : Text) : exponent cs ≤ cs.length := by
  unfold exponent
  split
  · rename_i e c cs
    have hc := run_le (fun c => c.isDigit || c = '_') (c :: cs)
    have hcs := run_le (fun c => c.isDigit || c = '_') cs
    simp only [digits, List.length_cons] at *
    repeat' split
    all_goals omega
  · exact Nat.zero_le _

theorem suffix_le (p : Char → Bool) (cs : Text) : suffix p cs ≤ cs.length := by
  unfold suffix
  cases cs with
  | nil => simp
  | cons c cs => split <;> simp

theorem digits_le (cs : Text) : digits cs ≤ cs.length := run_le ..

theorem hexDigits_le (cs : Text) : hexDigits cs ≤ cs.length := run_le ..

theorem decimal_le (cs : Text) : (decimal cs).2 ≤ cs.length := by
  unfold decimal
  dsimp only
  have whole := digits_le cs
  generalize digits cs = m at whole ⊢
  have point := fraction_le (cs.drop m)
  generalize fraction (cs.drop m) = p at point ⊢
  have body := exponent_le (cs.drop (m + p))
  generalize exponent (cs.drop (m + p)) = e at body ⊢
  have float := suffix_le isFloatSuffix (cs.drop (m + p + e))
  have long := suffix_le isLongSuffix (cs.drop (m + p + e))
  simp only [List.length_drop] at *
  split
  · dsimp only
    omega
  · split
    · dsimp only
      omega
    · dsimp only
      omega

theorem hexFloatTail_le {cs : Text} {n : Nat} (h : hexFloatTail cs = some n) : n ≤ cs.length := by
  unfold hexFloatTail at h
  have point : (if cs.head? = some '.' then 1 + hexDigits (cs.drop 1) else 0) ≤ cs.length := by
    split
    · rename_i hdot
      cases cs with
      | nil => cases hdot
      | cons c cs =>
        have := hexDigits_le cs
        simp only [List.drop_one, List.tail_cons, List.length_cons] at *
        omega
    · exact Nat.zero_le _
  generalize (if cs.head? = some '.' then 1 + hexDigits (cs.drop 1) else 0) = m at h point
  dsimp only at h
  split at h
  · rename_i p ds hdrop
    have len := congrArg List.length hdrop
    simp only [List.length_drop, List.length_cons] at len
    split at h
    · split at h
      · obtain rfl := Option.some.inj h
        have hsign := suffix_le (fun c => c = '+' || c = '-') ds
        have hexp := digits_le (ds.drop (suffix (fun c => c = '+' || c = '-') ds))
        simp only [List.length_drop] at *
        omega
      · cases h
    · cases h
  · cases h

theorem radix_le (isHex : Bool) (cs : Text) : (radix isHex cs).2 ≤ cs.length := by
  have body := hexDigits_le cs
  unfold radix
  generalize hexDigits cs = m at body ⊢
  dsimp only
  split
  · rename_i tail htail
    split at htail
    · have := hexFloatTail_le htail
      have := suffix_le isFloatSuffix (cs.drop (m + tail))
      simp only [List.length_drop] at *
      omega
    · cases htail
  · have := suffix_le isLongSuffix (cs.drop m)
    simp only [List.length_drop] at *
    omega

theorem number_le (cs : Text) : (number cs).2 ≤ cs.length := by
  unfold number
  split
  · rename_i x cs
    have hex := radix_le true cs
    have bin := radix_le false cs
    split
    · simp only [Prod.map, List.length_cons]
      omega
    · split
      · simp only [Prod.map, List.length_cons]
        omega
      · exact decimal_le _
  · exact decimal_le cs

theorem textBlock_le {cs : Text} {n : Nat} (h : textBlock cs = some n) : n ≤ cs.length := by
  fun_induction textBlock cs generalizing n with
  | case1 => simp at h; simp; omega
  | case2 c cs ih =>
    obtain ⟨m, hm, rfl⟩ := Option.map_eq_some_iff.1 h
    have := ih hm
    simp only [List.length_cons]
    omega
  | case3 c cs _ _ ih =>
    obtain ⟨m, hm, rfl⟩ := Option.map_eq_some_iff.1 h
    have := ih hm
    simp only [List.length_cons]
    omega
  | case4 => cases h

theorem quoted_le (quote : Char) (cs : Text) : (quoted quote cs).2 ≤ cs.length := by
  fun_induction quoted quote cs with
  | case1 c cs ih => simp only [Prod.map, List.length_cons] at *; omega
  | case2 => simp
  | case3 => simp
  | case4 c cs _ _ _ ih => simp only [Prod.map, List.length_cons] at *; omega
  | case5 => simp

/-- A lexeme ends where the text does or before. -/
theorem lexeme_le {c : Char} {cs : Text} {k : Kind} {n : Nat} (h : lexeme c cs = .ok (k, n)) :
    n ≤ cs.length := by
  unfold lexeme at h
  split at h
  · obtain ⟨-, rfl⟩ := Prod.mk.inj (Except.ok.inj h)
    exact run_le ..
  split at h
  · have hn := congrArg Prod.snd (Except.ok.inj h)
    have := number_le (c :: cs)
    simp only [Prod.map_snd, List.length_cons] at hn this
    omega
  split at h
  · have := run_le isHexDigit cs
    dsimp only at h
    split at h
    · obtain ⟨-, rfl⟩ := Prod.mk.inj (Except.ok.inj h)
      omega
    split at h
    · obtain ⟨-, rfl⟩ := Prod.mk.inj (Except.ok.inj h)
      omega
    · cases h
  split at h
  · rename_i hquotes
    split at h
    · rename_i m hm
      obtain ⟨-, rfl⟩ := Prod.mk.inj (Except.ok.inj h)
      have block := textBlock_le hm
      simp only [Bool.and_eq_true, decide_eq_true_eq] at hquotes
      have two := congrArg List.length hquotes.2
      simp only [List.length_drop, List.length_take, List.length_cons, List.length_nil] at *
      omega
    · cases h
  split at h
  · have := quoted_le c cs
    split at h
    · rename_i hq
      obtain ⟨-, rfl⟩ := Prod.mk.inj (Except.ok.inj h)
      simpa [hq] using this
    · cases h
  · split at h
    · rename_i sign hsign
      obtain ⟨-, rfl⟩ := Prod.mk.inj (Except.ok.inj h)
      have pre := List.find?_some hsign
      have := (List.isPrefixOf_iff_prefix.1 pre).length_le
      simp only [List.length_cons] at this
      omega
    · split at h
      · obtain ⟨-, rfl⟩ := Prod.mk.inj (Except.ok.inj h)
        exact Nat.zero_le _
      · cases h

end SketchPrep.Token.Lexer
