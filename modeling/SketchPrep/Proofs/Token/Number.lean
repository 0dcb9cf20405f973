import SketchPrep.Proofs.Token.Measure

/-!
Numbers by themselves and in front of other text. `IsNumber w k` says that the lexer, at work on `w`
alone, reads all of it as one number. Main statements: `isNumber_of_append`, a number in a text is
one by itself, and `IsNumber.append`, where it is one in front of other text.
-/

namespace SketchPrep.Token.Lexer

variable {p : Char → Bool} {u w x : Text} {k : Kind}

/-- What the parts of a number may go on with, the point left aside. -/
def continuesNumber (c : Char) : Bool :=
  isHexDigit c || ['_', 'x', 'X', 'p', 'P', 'l', 'L'].contains c

theorem not_of_continuesNumber {c : Char} (h : continuesNumber c = false) :
    (c.isDigit = false ∧ c ≠ '_' ∧ c ≠ 'e' ∧ c ≠ 'E') ∧ isFloatSuffix c = false ∧
      isLongSuffix c = false := by
  have no (d : Char) (hd : continuesNumber d = true) : c ≠ d := by
    rintro rfl
    rw [h] at hd
    cases hd
  refine ⟨⟨?_, no '_' (by decide), ?_, ?_⟩, ?_, ?_⟩
  · simp [continuesNumber, isHexDigit] at h
    exact h.1.1.1
  · exact no 'e' (by decide)
  · exact no 'E' (by decide)
  · simp [isFloatSuffix, no 'f' (by decide), no 'F' (by decide), no 'd' (by decide),
      no 'D' (by decide)]
  · simp [isLongSuffix, no 'l' (by decide), no 'L' (by decide)]

theorem not_isHexDigit {c : Char} (h : continuesNumber c = false) :
    isHexDigit c = false ∧ c ≠ '_' := by
  simp only [continuesNumber, Bool.or_eq_false_iff] at h
  refine ⟨h.1, ?_⟩
  rintro rfl
  simp at h

/-! ### Parts -/

theorem run_append_of_le (h : run p (u ++ x) ≤ u.length) : run p (u ++ x) = run p u := by
  by_cases hu : ∃ c ∈ u, p c = false
  · exact run_of_stop hu x
  · have all : ∀ c ∈ u, p c := by simpa using hu
    rw [run, List.takeWhile_append_of_pos all, List.length_append] at h ⊢
    have whole := @run_append p u [] all (by simp)
    rw [List.append_nil] at whole
    omega

theorem digits_append (hx : ∀ c ∈ x.head?, c.isDigit = false ∧ c ≠ '_') (u : Text) :
    digits (u ++ x) = digits u :=
  run_append_of_head (fun c hc => by simp [hx c hc]) u

theorem one_le_digits {c : Char} {cs : Text} (hc : c.isDigit) : 1 ≤ digits (c :: cs) := by
  simp [digits, run, hc]

theorem suffix_append (hx : u = [] → ∀ c ∈ x.head?, p c = false) :
    suffix p (u ++ x) = suffix p u := by
  cases u with
  | nil =>
    cases x with
    | nil => rfl
    | cons c x => simp [suffix, hx rfl c rfl]
  | cons c u => rfl

theorem suffix_of_append (h : suffix p (u ++ x) ≤ u.length) : suffix p (u ++ x) = suffix p u := by
  cases u with
  | nil => simpa [suffix] using h
  | cons c u => rfl

theorem fraction_append (hx : ∀ c ∈ x.head?, c.isDigit = false ∧ c ≠ '_')
    (hnil : u = [] → fraction x = 0)
    (hpoint : u = ['.'] → ∀ c ∈ x.head?, startsName c = false ∧ c ≠ '.') :
    fraction (u ++ x) = fraction u := by
  match u with
  | [] => simpa [fraction] using hnil rfl
  | [c] =>
    by_cases hc : c = '.'
    · subst hc
      cases x with
      | nil => rfl
      | cons d x =>
        have hd := hx d rfl
        have hd' := hpoint rfl d rfl
        simp [fraction, digits, run, hd, hd']
    · cases x <;> simp [fraction, hc]
  | c :: d :: u =>
    by_cases hc : c = '.'
    · subst hc
      have := digits_append hx (d :: u)
      simp only [List.cons_append] at this
      simp only [List.cons_append, fraction, this]
    · simp [fraction, hc]

theorem fraction_of_append (h : fraction (u ++ x) ≤ u.length)
    (hpoint : u = ['.'] → fraction (u ++ x) ≠ 0) : fraction (u ++ x) = fraction u := by
  match u with
  | [] => simpa [fraction] using h
  | [c] =>
    by_cases hc : c = '.'
    · subst hc
      have := hpoint rfl
      simp only [List.length_singleton] at h
      rw [show fraction ['.'] = 1 from rfl]
      omega
    · cases x <;> simp [fraction, hc]
  | c :: d :: u =>
    by_cases hc : c = '.'
    · subst hc
      simp only [List.cons_append, fraction] at h ⊢
      split at h
      · rename_i hd
        have := run_append_of_le (p := fun c => c.isDigit || c = '_') (u := d :: u) (x := x)
          (by simp only [digits, List.length_cons, List.cons_append] at h ⊢; omega)
        simp only [List.cons_append] at this
        simp only [digits, this, hd, if_true]
      · rename_i hd
        rw [if_neg hd, if_neg hd]
    · simp [fraction, hc]

theorem exponent_append (hx : ∀ c ∈ x.head?, c.isDigit = false ∧ c ≠ '_')
    (hnil : u = [] → ∀ c ∈ x.head?, c ≠ 'e' ∧ c ≠ 'E')
    (hone : ∀ e, u = [e] → e ≠ 'e' ∧ e ≠ 'E' ∨ ∀ c ∈ x.head?, c ≠ '+' ∧ c ≠ '-') :
    exponent (u ++ x) = exponent u := by
  match u with
  | [] =>
    match x with
    | [] | [c] => rfl
    | c :: d :: x =>
      have := hnil rfl c rfl
      simp [exponent, this]
  | [e] =>
    match x with
    | [] => rfl
    | c :: x =>
      have hc := hx c rfl
      rcases hone e rfl with he | hsign
      · simp [exponent, he]
      · have := hsign c rfl
        simp [exponent, hc, this]
  | e :: c :: u =>
    have rest := digits_append hx u
    have whole := digits_append hx (c :: u)
    simp only [List.cons_append] at whole
    simp only [List.cons_append, exponent, rest, whole]
    cases u with
    | cons => rfl
    | nil =>
      cases x with
      | nil => rfl
      | cons d x => simp [hx d rfl]

theorem exponent_of_append (h : exponent (u ++ x) ≤ u.length) :
    exponent (u ++ x) = exponent u := by
  match u with
  | [] => simpa [exponent] using h
  | [e] =>
    match x with
    | [] => rfl
    | c :: x =>
      simp only [List.cons_append, List.nil_append, exponent, List.length_singleton] at h ⊢
      split at h
      · split at h
        · rename_i hc
          have := @one_le_digits c x hc
          omega
        · split at h
          · omega
          · rename_i he hc hs
            rw [if_pos he, if_neg hc, if_neg hs]
      · rename_i he
        rw [if_neg he]
  | e :: c :: u =>
    simp only [List.cons_append, exponent, List.length_cons] at h ⊢
    by_cases he : (decide (e = 'e') || decide (e = 'E')) = true
    · rw [if_pos he] at h ⊢
      rw [if_pos he]
      by_cases hc : c.isDigit
      · rw [if_pos hc] at h ⊢
        rw [if_pos hc]
        have := run_append_of_le (p := fun c => c.isDigit || c = '_') (u := c :: u) (x := x)
          (by simp only [digits, List.length_cons, List.cons_append] at h ⊢; omega)
        simp only [List.cons_append] at this
        simp only [digits, this]
      · rw [if_neg hc] at h ⊢
        rw [if_neg hc]
        cases u with
        | nil =>
          -- a digit behind the sign would be part of the number
          cases x with
          | nil => rfl
          | cons d x =>
            by_cases hd : d.isDigit
            · simp only [List.nil_append, List.head?_cons, Option.any_some, hd, Bool.and_true,
                List.length_nil] at h ⊢
              split at h
              · have := @one_le_digits d x hd
                omega
              · rename_i hs
                simp [hs]
            · simp [hd]
        | cons d u =>
          by_cases hs : ((decide (c = '+') || decide (c = '-')) && d.isDigit) = true
          · simp only [List.cons_append, List.head?_cons, Option.any_some, hs, if_true] at h ⊢
            have := run_append_of_le (p := fun c => c.isDigit || c = '_') (u := d :: u) (x := x)
              (by simp only [digits, List.length_cons, List.cons_append] at h ⊢; omega)
            simp only [List.cons_append] at this
            simp only [digits, this]
          · simp [hs]
    · rw [if_neg he] at h ⊢
      rw [if_neg he]

/-! ### Decimal numbers -/

/-- The digits with a fraction, and with an exponent behind it. -/
def pointStop (cs : Text) : Nat := digits cs + fraction (cs.drop (digits cs))

def decimalStop (cs : Text) : Nat := pointStop cs + exponent (cs.drop (pointStop cs))

theorem decimal_eq (cs : Text) : decimal cs =
    if digits cs < decimalStop cs ∨ 0 < suffix isFloatSuffix (cs.drop (decimalStop cs)) then
      (.floatLiteral, decimalStop cs + suffix isFloatSuffix (cs.drop (decimalStop cs)))
    else (.intLiteral, decimalStop cs + suffix isLongSuffix (cs.drop (decimalStop cs))) := by
  simp only [decimal, decimalStop, pointStop]
  by_cases hbody : digits cs < digits cs + fraction (cs.drop (digits cs)) +
      exponent (cs.drop (digits cs + fraction (cs.drop (digits cs))))
  · simp [hbody]
  · simp [hbody]

theorem decimalStop_le (cs : Text) : decimalStop cs ≤ (decimal cs).2 := by
  rw [decimal_eq]
  split
  · exact Nat.le_add_right ..
  · exact Nat.le_add_right ..

theorem decimal_congr (hdigits : digits (w ++ x) = digits w) (hbody : decimalStop (w ++ x) = decimalStop w)
    (hle : decimalStop w ≤ w.length)
    (hfloat : suffix isFloatSuffix (w.drop (decimalStop w) ++ x) = suffix isFloatSuffix (w.drop (decimalStop w)))
    (hlong : (decimal (w ++ x)).1 = .intLiteral →
      suffix isLongSuffix (w.drop (decimalStop w) ++ x) = suffix isLongSuffix (w.drop (decimalStop w))) :
    decimal (w ++ x) = decimal w := by
  rw [decimal_eq (w ++ x), hbody, hdigits, List.drop_append_of_le_length hle, hfloat] at hlong ⊢
  rw [decimal_eq w]
  split
  · rfl
  · rename_i hint
    rw [if_neg hint] at hlong
    rw [hlong rfl]

/-- A decimal number that is read in a text is read alone. -/
theorem decimal_of_append (h : (decimal (w ++ x)).2 = w.length) :
    decimal (w ++ x) = decimal w := by
  have hle := decimalStop_le (w ++ x)
  have hdigits : digits (w ++ x) = digits w := run_append_of_le (by
    simp only [decimalStop, pointStop, digits] at hle
    omega)
  have hpoint : pointStop (w ++ x) = pointStop w := by
    have here := hle
    simp only [decimalStop, pointStop] at here ⊢
    rw [hdigits] at here ⊢
    have cut : (w ++ x).drop (digits w) = w.drop (digits w) ++ x :=
      List.drop_append_of_le_length (by omega)
    rw [cut] at here ⊢
    rw [fraction_of_append (by rw [List.length_drop]; omega)]
    -- without the point the number would end before it
    intro hdot hzero
    have hbody : decimalStop (w ++ x) = digits w := by
      simp only [decimalStop, pointStop, hdigits, cut, hzero, Nat.add_zero]
      rw [hdot]
      cases x <;> simp [exponent]
    have hlen := congrArg List.length hdot
    rw [decimal_eq, hdigits, hbody, cut, hdot, if_neg (by simp [suffix, isFloatSuffix])] at h
    simp only [List.length_drop, List.length_singleton] at hlen
    simp [suffix, isLongSuffix] at h
    omega
  have hbody : decimalStop (w ++ x) = decimalStop w := by
    have here := hle
    simp only [decimalStop] at here ⊢
    rw [hpoint] at here ⊢
    have cut : (w ++ x).drop (pointStop w) = w.drop (pointStop w) ++ x :=
      List.drop_append_of_le_length (by omega)
    rw [cut] at here ⊢
    rw [exponent_of_append (by rw [List.length_drop]; omega)]
  have hle' : decimalStop w ≤ w.length := by omega
  have cut : (w ++ x).drop (decimalStop w) = w.drop (decimalStop w) ++ x := List.drop_append_of_le_length hle'
  rw [decimal_eq, hbody, hdigits, cut] at h
  refine decimal_congr hdigits hbody hle' ?_ ?_
  · refine suffix_of_append ?_
    rw [List.length_drop]
    split at h
    · omega
    · omega
  · intro hkind
    rw [decimal_eq, hbody, hdigits, cut] at hkind
    refine suffix_of_append ?_
    rw [List.length_drop]
    split at h
    · rename_i hfloat
      rw [if_pos hfloat] at hkind
      cases hkind
    · omega

/-- Up to where suffixes begin, a decimal number does not see what follows it. -/
theorem decimalStop_append (h : (decimal w).2 = w.length)
    (hx : ∀ c ∈ x.head?, c.isDigit = false ∧ c ≠ '_' ∧ c ≠ 'e' ∧ c ≠ 'E')
    (hwhole : (∀ c ∈ w, c.isDigit || c = '_') → fraction x = 0)
    (hlast : w.getLast? = some '.' → ∀ c ∈ x.head?, startsName c = false ∧ c ≠ '.') :
    digits (w ++ x) = digits w ∧ decimalStop (w ++ x) = decimalStop w ∧ decimalStop w ≤ w.length := by
  have hle : decimalStop w ≤ w.length := h ▸ decimalStop_le w
  have hx' : ∀ c ∈ x.head?, c.isDigit = false ∧ c ≠ '_' := fun c hc => ⟨(hx c hc).1, (hx c hc).2.1⟩
  have hdigits := digits_append hx' w
  have hpoint : pointStop (w ++ x) = pointStop w := by
    have here := hle
    simp only [decimalStop, pointStop] at here ⊢
    rw [hdigits, List.drop_append_of_le_length (by omega), fraction_append hx']
    · intro hnil
      refine hwhole ?_
      have whole : w.length ≤ run (fun c => c.isDigit || c = '_') w := List.drop_eq_nil_iff.1 hnil
      have all := forall_mem_of_run whole
      rwa [List.take_length] at all
    · intro hdot
      refine hlast ?_
      rw [← List.take_append_drop (digits w) w, hdot]
      simp
  refine ⟨hdigits, ?_, hle⟩
  have here := hle
  simp only [decimalStop] at here ⊢
  rw [hpoint, List.drop_append_of_le_length (by omega), exponent_append hx']
  · exact fun _ c hc => (hx c hc).2.2
  · intro e he
    by_cases hexp : e = 'e' ∨ e = 'E'
    · -- the number would end before the letter
      exfalso
      have hbody : decimalStop w = pointStop w := by
        simp [decimalStop, he, exponent]
      have hlen := congrArg List.length he
      rw [List.length_drop, List.length_singleton] at hlen
      rw [decimal_eq, hbody, he] at h
      rcases hexp with rfl | rfl
      · simp [suffix, isFloatSuffix, isLongSuffix] at h
        split at h <;> simp at h <;> omega
      · simp [suffix, isFloatSuffix, isLongSuffix] at h
        split at h <;> simp at h <;> omega
    · exact .inl ⟨fun h => hexp (.inl h), fun h => hexp (.inr h)⟩

/-- A decimal number in front of what does not go on with it. -/
theorem decimal_append (h : (decimal w).2 = w.length)
    (hx : ∀ c ∈ x.head?, continuesNumber c = false)
    (hwhole : (∀ c ∈ w, c.isDigit || c = '_') → fraction x = 0)
    (hlast : w.getLast? = some '.' → ∀ c ∈ x.head?, startsName c = false ∧ c ≠ '.') :
    decimal (w ++ x) = decimal w := by
  have hx' (c) (hc : c ∈ x.head?) := not_of_continuesNumber (hx c hc)
  obtain ⟨hdigits, hbody, hle⟩ := decimalStop_append h (fun c hc => (hx' c hc).1) hwhole hlast
  refine decimal_congr hdigits hbody hle ?_ fun _ => ?_
  · exact suffix_append fun _ c hc => (hx' c hc).2.1
  · exact suffix_append fun _ c hc => (hx' c hc).2.2

/-! ### Numbers with a radix mark -/

/-- The fraction and the exponent of a hexadecimal float. -/
structure IsHexTail (u : Text) : Prop where
  parts : ∃ f p s d ds, u = f ++ p :: (s ++ d :: ds) ∧
    (f = [] ∨ ∃ h, f = '.' :: h ∧ ∀ c ∈ h, isHexDigit c || c = '_') ∧ (p = 'p' ∨ p = 'P') ∧
    (s = [] ∨ s = ['+'] ∨ s = ['-']) ∧ d.isDigit ∧ ∀ c ∈ ds, c.isDigit || c = '_'

theorem hexFloatTail_of_isHexTail (h : IsHexTail u)
    (hx : ∀ c ∈ x.head?, c.isDigit = false ∧ c ≠ '_') :
    hexFloatTail (u ++ x) = some u.length := by
  obtain ⟨f, p, s, d, ds, rfl, hf, hp, hs, hd, hds⟩ := h.parts
  have assoc : f ++ p :: (s ++ d :: ds) ++ x = f ++ p :: (s ++ (d :: ds ++ x)) := by simp
  have hpoint : (if (f ++ p :: (s ++ (d :: ds ++ x))).head? = some '.' then
      1 + hexDigits ((f ++ p :: (s ++ (d :: ds ++ x))).drop 1) else 0) = f.length := by
    obtain rfl | ⟨h, rfl, hh⟩ := hf
    · rcases hp with rfl | rfl <;> simp
    · have := @run_append _ _ (p :: (s ++ (d :: ds ++ x))) hh
        (by rcases hp with rfl | rfl <;> simp <;> decide)
      simp only [List.cons_append] at this
      simp [hexDigits, this, Nat.add_comm]
  have hdigits : digits (d :: ds ++ x) = ds.length + 1 := by
    refine run_append (p := fun c => c.isDigit || c = '_') (w := d :: ds) ?_ ?_
    · rw [List.forall_mem_cons]
      exact ⟨by simp [hd], hds⟩
    · exact fun c hc => by simp [hx c hc]
  have hsign : suffix (fun c => c = '+' || c = '-') (s ++ (d :: ds ++ x)) = s.length := by
    rcases hs with rfl | rfl | rfl
    · have plus : d ≠ '+' := by rintro rfl; simp at hd
      have minus : d ≠ '-' := by rintro rfl; simp at hd
      simp [suffix, plus, minus]
    · simp [suffix]
    · simp [suffix]
  have hmark : (decide (p = 'p') || decide (p = 'P')) = true := by simpa using hp
  rw [assoc]
  unfold hexFloatTail
  simp only [hpoint, List.drop_left, hmark, if_true, hsign, hdigits]
  simp only [List.cons_append, List.head?_cons, Option.any_some, hd, if_true, List.length_append,
    List.length_cons]
  congr 1
  omega

theorem exists_of_hexFloatTail {cs : Text} {n : Nat} (h : hexFloatTail cs = some n) :
    ∃ u x, cs = u ++ x ∧ IsHexTail u ∧ (∀ c ∈ x.head?, c.isDigit = false ∧ c ≠ '_') ∧
      n = u.length := by
  unfold hexFloatTail at h
  obtain ⟨f, rest, rfl, hlen, hf⟩ : ∃ f rest, cs = f ++ rest ∧
      (if cs.head? = some '.' then 1 + hexDigits (cs.drop 1) else 0) = f.length ∧
      (f = [] ∨ ∃ h, f = '.' :: h ∧ ∀ c ∈ h, isHexDigit c || c = '_') := by
    by_cases hdot : cs.head? = some '.'
    · obtain ⟨cs, rfl⟩ := List.head?_eq_some_iff.1 hdot
      refine ⟨'.' :: cs.take (hexDigits cs), cs.drop (hexDigits cs), by simp, ?_, .inr ⟨_, rfl, ?_⟩⟩
      · have := hexDigits_le cs
        simp [Nat.min_eq_left this, Nat.add_comm]
      · exact forall_mem_of_run (Nat.le_refl _)
    · exact ⟨[], cs, rfl, by simp [hdot], .inl rfl⟩
  simp only [hlen, List.drop_left] at h
  cases rest with
  | nil => cases h
  | cons p cs =>
    dsimp only at h
    split at h
    · rename_i hp
      obtain ⟨s, rest, rfl, hlen', hs⟩ : ∃ s rest, cs = s ++ rest ∧
          suffix (fun c => c = '+' || c = '-') cs = s.length ∧
          (s = [] ∨ s = ['+'] ∨ s = ['-']) := by
        cases cs with
        | nil => exact ⟨[], [], rfl, rfl, .inl rfl⟩
        | cons c cs =>
          by_cases hc : c = '+' ∨ c = '-'
          · refine ⟨[c], cs, rfl, by simp [suffix, hc], .inr ?_⟩
            rcases hc with rfl | rfl <;> simp
          · exact ⟨[], c :: cs, rfl, by simpa [suffix] using hc, .inl rfl⟩
      rw [hlen', List.drop_left] at h
      split at h
      · rename_i hd
        cases rest with
        | nil => cases hd
        | cons d rest =>
          obtain rfl := Option.some.inj h
          have hds := forall_mem_of_run (p := fun c => c.isDigit || c = '_')
            (Nat.le_refl (digits (d :: rest)))
          have hx := @head?_drop_run (fun c => c.isDigit || c = '_') (d :: rest)
          have hpos : digits (d :: rest) = digits rest + 1 := by
            simp [digits, run, show d.isDigit = true from hd]
          change ∀ c ∈ ((d :: rest).drop (digits (d :: rest))).head?, _ at hx
          rw [hpos, List.drop_succ_cons] at hx
          rw [hpos, List.take_succ_cons] at hds
          rw [hpos]
          refine ⟨f ++ p :: (s ++ d :: rest.take (digits rest)), rest.drop (digits rest), ?_,
            ⟨f, p, s, d, _, rfl, hf, by simpa using hp, hs, hd, fun c hc => hds c (.tail _ hc)⟩,
            fun c hc => by simpa using hx c hc, ?_⟩
          · simp
          · have := digits_le rest
            simp only [List.length_append, List.length_cons, List.length_take,
              Nat.min_eq_left this]
            omega
      · cases h
    · cases h

theorem IsHexTail.two_le (h : IsHexTail u) : 2 ≤ u.length := by
  obtain ⟨f, p, s, d, ds, rfl, -⟩ := h.parts
  simp only [List.length_append, List.length_cons]
  omega

theorem IsHexTail.head (h : IsHexTail u) : ∃ c ∈ u.head?, c = '.' ∨ c = 'p' ∨ c = 'P' := by
  obtain ⟨f, p, s, d, ds, rfl, rfl | ⟨t, rfl, -⟩, hp, -⟩ := h.parts
  · exact ⟨p, rfl, .inr hp⟩
  · exact ⟨'.', rfl, .inl rfl⟩

/-- The fraction and the exponent that a number with this mark may have. -/
def tail? (isHex : Bool) (cs : Text) : Option Nat := if isHex then hexFloatTail cs else none

theorem exists_of_tail? {isHex : Bool} {n : Nat} (h : tail? isHex u = some n) :
    isHex = true ∧ ∃ v z, u = v ++ z ∧ IsHexTail v ∧
      (∀ c ∈ z.head?, c.isDigit = false ∧ c ≠ '_') ∧ n = v.length := by
  cases isHex with
  | false => cases h
  | true => exact ⟨rfl, exists_of_hexFloatTail h⟩

theorem tail?_of_isHexTail {v z : Text} (hv : IsHexTail v)
    (hz : ∀ c ∈ z.head?, c.isDigit = false ∧ c ≠ '_') : tail? true (v ++ z) = some v.length :=
  hexFloatTail_of_isHexTail hv hz

theorem radix_eq (isHex : Bool) (cs : Text) : radix isHex cs =
    match tail? isHex (cs.drop (hexDigits cs)) with
    | some n => (.floatLiteral, hexDigits cs + n +
        suffix isFloatSuffix (cs.drop (hexDigits cs + n)))
    | none => (.intLiteral, hexDigits cs + suffix isLongSuffix (cs.drop (hexDigits cs))) := rfl

theorem hexDigits_append (hx : ∀ c ∈ x.head?, isHexDigit c = false ∧ c ≠ '_') (u : Text) :
    hexDigits (u ++ x) = hexDigits u :=
  run_append_of_head (fun c hc => by simp [hx c hc]) u

theorem radix_of_append {isHex : Bool} (h : (radix isHex (w ++ x)).2 = w.length) :
    radix isHex (w ++ x) = radix isHex w := by
  have hdigits : hexDigits (w ++ x) = hexDigits w := by
    refine run_append_of_le ?_
    change hexDigits (w ++ x) ≤ w.length
    rw [radix_eq] at h
    split at h
    · dsimp only at h
      omega
    · dsimp only at h
      omega
  have hle : hexDigits w ≤ w.length := hexDigits_le w
  have cut : (w ++ x).drop (hexDigits w) = w.drop (hexDigits w) ++ x :=
    List.drop_append_of_le_length hle
  rw [radix_eq, hdigits, cut] at h
  rw [radix_eq, hdigits, cut, radix_eq isHex w]
  cases htail : tail? isHex (w.drop (hexDigits w) ++ x) with
  | some n =>
    rw [htail] at h
    dsimp only at h
    obtain ⟨rfl, v, y, hv, isTail, hy, rfl⟩ := exists_of_tail? htail
    obtain ⟨z, hz, rfl⟩ : ∃ z, w.drop (hexDigits w) = v ++ z ∧ y = z ++ x := by
      rw [List.append_eq_append_iff] at hv
      obtain ⟨z, rfl, rfl⟩ | ⟨z, hz, rfl⟩ := hv
      · have hlen := congrArg List.length (List.take_append_drop (hexDigits w) w)
        rw [List.length_append, List.length_take, Nat.min_eq_left hle] at hlen
        rw [List.length_append] at h
        obtain rfl : z = [] := List.eq_nil_of_length_eq_zero (by omega)
        exact ⟨[], by simp, rfl⟩
      · exact ⟨z, hz, rfl⟩
    have self : tail? true (w.drop (hexDigits w)) = some v.length := by
      rw [hz]
      refine tail?_of_isHexTail isTail fun c hc => hy c ?_
      rw [List.head?_append, Option.mem_def.1 hc]
      rfl
    have hlen := congrArg List.length hz
    rw [List.length_drop, List.length_append] at hlen
    have cut' : (w ++ x).drop (hexDigits w + v.length) =
        w.drop (hexDigits w + v.length) ++ x := List.drop_append_of_le_length (by omega)
    rw [self]
    dsimp only
    rw [cut'] at h ⊢
    rw [suffix_of_append (by rw [List.length_drop]; omega)]
  | none =>
    rw [htail] at h
    dsimp only at h
    have hlong : suffix isLongSuffix (w.drop (hexDigits w) ++ x) =
        suffix isLongSuffix (w.drop (hexDigits w)) :=
      suffix_of_append (by rw [List.length_drop]; omega)
    have self : tail? isHex (w.drop (hexDigits w)) = none := by
      cases hself : tail? isHex (w.drop (hexDigits w)) with
      | none => rfl
      | some n =>
        obtain ⟨-, v, z, hv, isTail, -⟩ := exists_of_tail? hself
        have hlen := congrArg List.length hv
        rw [List.length_drop, List.length_append] at hlen
        have := isTail.two_le
        have : suffix isLongSuffix (w.drop (hexDigits w) ++ x) ≤ 1 := by
          rw [suffix]
          split <;> omega
        omega
    rw [self]
    dsimp only
    rw [hlong]

theorem radix_append {isHex : Bool} (h : (radix isHex w).2 = w.length)
    (hx : ∀ c ∈ x.head?, continuesNumber c = false)
    (htail : isHex = true → (∀ c ∈ w, isHexDigit c || c = '_') → hexFloatTail x = none) :
    radix isHex (w ++ x) = radix isHex w := by
  have hx' (c) (hc : c ∈ x.head?) := not_of_continuesNumber (hx c hc)
  have hdigits : hexDigits (w ++ x) = hexDigits w :=
    hexDigits_append (fun c hc => not_isHexDigit (hx c hc)) w
  have hle : hexDigits w ≤ w.length := hexDigits_le w
  have cut : (w ++ x).drop (hexDigits w) = w.drop (hexDigits w) ++ x :=
    List.drop_append_of_le_length hle
  rw [radix_eq, hdigits, cut, radix_eq isHex w]
  rw [radix_eq] at h
  cases hself : tail? isHex (w.drop (hexDigits w)) with
  | some n =>
    rw [hself] at h
    dsimp only at h
    obtain ⟨rfl, v, z, hv, isTail, hz, rfl⟩ := exists_of_tail? hself
    have whole : tail? true (w.drop (hexDigits w) ++ x) = some v.length := by
      rw [hv, List.append_assoc]
      refine tail?_of_isHexTail isTail fun c hc => ?_
      cases z with
      | nil => exact ⟨(hx' c hc).1.1, (hx' c hc).1.2.1⟩
      | cons d z => exact hz c hc
    have cut' : (w ++ x).drop (hexDigits w + v.length) =
        w.drop (hexDigits w + v.length) ++ x := List.drop_append_of_le_length (by omega)
    rw [whole]
    dsimp only
    rw [cut', suffix_append fun _ c hc => (hx' c hc).2.1]
  | none =>
    rw [hself] at h
    dsimp only at h
    have whole : tail? isHex (w.drop (hexDigits w) ++ x) = none := by
      cases isHex with
      | false => rfl
      | true =>
        cases hu : w.drop (hexDigits w) with
        | nil =>
          refine htail rfl ?_
          have all := forall_mem_of_run (p := fun c => isHexDigit c || c = '_')
            (List.drop_eq_nil_iff.1 hu)
          rwa [List.take_length] at all
        | cons c u =>
          -- a suffix is the end of the number
          have hlong : isLongSuffix c := by
            by_cases hc : isLongSuffix c
            · exact hc
            · have hlen := congrArg List.length hu
              simp only [List.length_drop, List.length_cons] at hlen
              simp [hu, suffix, hc] at h
              omega
          cases hboth : tail? true (c :: u ++ x) with
          | none => rfl
          | some n =>
            obtain ⟨-, v, z, hv, isTail, -⟩ := exists_of_tail? hboth
            obtain ⟨d, hd, hmark⟩ := isTail.head
            have same : c = d := by
              simpa [List.head?_append, Option.mem_def.1 hd] using congrArg List.head? hv
            subst same
            rcases hmark with rfl | rfl | rfl <;> exact absurd hlong (by decide)
    rw [whole]
    dsimp only
    rw [suffix_append fun _ c hc => (hx' c hc).2.2]

/-! ### Numbers -/

/-- Read alone, `w` is a number and nothing else. -/
def IsNumber (w : Text) (k : Kind) : Prop := number w = (k, w.length)

/-- A hexadecimal number without fraction, exponent and suffix. -/
def IsHexInt (w : Text) : Prop :=
  ∃ mark ds, w = '0' :: mark :: ds ∧ (mark = 'x' ∨ mark = 'X') ∧
    ∀ c ∈ ds, isHexDigit c || c = '_'

/-- The number `w` does not go on in `x`. -/
structure EndsNumber (w x : Text) : Prop where
  stop : ∀ c ∈ x.head?, continuesNumber c = false
  whole : (∀ c ∈ w, c.isDigit || c = '_') → fraction x = 0
  last : w.getLast? = some '.' → ∀ c ∈ x.head?, startsName c = false ∧ c ≠ '.'
  tail : IsHexInt w → hexFloatTail x = none

theorem number_of_zero {mark : Char} {cs : Text} : number ('0' :: mark :: cs) =
    if mark = 'x' || mark = 'X' then (radix true cs).map id (2 + ·)
    else if mark = 'b' || mark = 'B' then (radix false cs).map id (2 + ·)
    else decimal ('0' :: mark :: cs) := rfl

theorem number_of_ne {c : Char} {cs : Text} (h : c ≠ '0') : number (c :: cs) = decimal (c :: cs) := by
  rw [number]
  rintro d ds hd
  exact absurd (List.cons.inj hd).1 h

theorem isNumber_of_append (hw : w ≠ []) (h : number (w ++ x) = (k, w.length)) : IsNumber w k := by
  have decimal_case (hd : number (w ++ x) = decimal (w ++ x)) (hs : number w = decimal w) :
      IsNumber w k := by
    rw [hd] at h
    rw [IsNumber, hs, ← decimal_of_append (x := x) (by rw [h]), h]
  match w with
  | [] => exact absurd rfl hw
  | [c] =>
    by_cases hc : c = '0'
    · subst hc
      cases x with
      | nil => exact decimal_case rfl rfl
      | cons d x =>
        rw [List.singleton_append, number_of_zero] at h
        -- a mark would make the number longer
        have no_mark (isHex : Bool) : (radix isHex x).map id (2 + ·) ≠ (k, ['0'].length) := by
          intro hno
          have := congrArg Prod.snd hno
          simp only [Prod.map_snd, List.length_singleton] at this
          omega
        split at h
        · exact absurd h (no_mark true)
        · split at h
          · exact absurd h (no_mark false)
          · rename_i hx hb
            exact decimal_case (by rw [List.singleton_append, number_of_zero, if_neg hx, if_neg hb])
              rfl
    · exact decimal_case (number_of_ne hc) (number_of_ne hc)
  | c :: d :: w =>
    by_cases hc : c = '0'
    · subst hc
      have radix_case {isHex : Bool} (h : (radix isHex (w ++ x)).map id (2 + ·) =
          (k, ('0' :: d :: w).length)) : (radix isHex w).map id (2 + ·) =
            (k, ('0' :: d :: w).length) := by
        have hlen := congrArg Prod.snd h
        simp only [Prod.map_snd, List.length_cons] at hlen
        rw [← radix_of_append (x := x) (by omega), h]
      rw [List.cons_append, List.cons_append, number_of_zero] at h
      rw [IsNumber, number_of_zero]
      split at h
      · rename_i hx
        rw [if_pos hx]
        exact radix_case h
      · rename_i hx
        rw [if_neg hx]
        split at h
        · rename_i hb
          rw [if_pos hb]
          exact radix_case h
        · rename_i hb
          rw [if_neg hb, ← decimal_of_append (w := '0' :: d :: w) (x := x)
            (by rw [List.cons_append, List.cons_append, h])]
          exact h
    · exact decimal_case (number_of_ne hc) (number_of_ne hc)

theorem IsNumber.append (h : IsNumber w k) (hw : w ≠ []) (hx : EndsNumber w x) :
    number (w ++ x) = (k, w.length) := by
  have decimal_case (hd : number (w ++ x) = decimal (w ++ x)) (hs : number w = decimal w) :
      number (w ++ x) = (k, w.length) := by
    have self : decimal w = (k, w.length) := hs ▸ h
    rw [hd, decimal_append (by rw [self]) hx.stop hx.whole hx.last, self]
  match w with
  | [] => exact absurd rfl hw
  | [c] =>
    by_cases hc : c = '0'
    · subst hc
      refine decimal_case ?_ rfl
      cases x with
      | nil => rfl
      | cons d x =>
        have no (m : Char) (hm : continuesNumber m = true) : d ≠ m := by
          rintro rfl
          have := hx.stop d rfl
          rw [hm] at this
          cases this
        rw [List.singleton_append, number_of_zero]
        simp [no 'x' (by decide), no 'X' (by decide), no 'b' (by decide), no 'B' (by decide)]
    · exact decimal_case (number_of_ne hc) (number_of_ne hc)
  | c :: d :: w =>
    by_cases hc : c = '0'
    · subst hc
      have radix_case {isHex : Bool} (hmark : isHex = true → d = 'x' ∨ d = 'X')
          (h : (radix isHex w).map id (2 + ·) = (k, ('0' :: d :: w).length)) :
          (radix isHex (w ++ x)).map id (2 + ·) = (k, ('0' :: d :: w).length) := by
        have hlen := congrArg Prod.snd h
        simp only [Prod.map_snd, List.length_cons] at hlen
        rw [radix_append (by omega) hx.stop, h]
        exact fun hHex all => hx.tail ⟨d, w, rfl, hmark hHex, all⟩
      rw [IsNumber, number_of_zero] at h
      rw [List.cons_append, List.cons_append, number_of_zero]
      split at h
      · rename_i hm
        rw [if_pos hm]
        exact radix_case (fun _ => by simpa using hm) h
      · rename_i hm
        rw [if_neg hm]
        split at h
        · rename_i hb
          rw [if_pos hb]
          exact radix_case (by simp) h
        · rename_i hb
          rw [if_neg hb]
          exact (decimal_append (by rw [h]) hx.stop hx.whole hx.last).trans h
    · exact decimal_case (number_of_ne hc) (number_of_ne hc)

end SketchPrep.Token.Lexer
