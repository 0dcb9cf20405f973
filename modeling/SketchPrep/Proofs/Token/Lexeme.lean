import SketchPrep.Proofs.Token.Number
import SketchPrep.Proofs.Token.Reading

/-!
What a lexeme of each kind looks like, and in front of which texts it stays one.
-/

namespace SketchPrep.Token.Lexer

open Text

/-! ### Characters -/

theorem isAlphabetic_of_isDigit {c : Char} (h : c.isDigit) : CharClass.isAlphabetic c = false := by
  have digit : 48 ≤ c.val ∧ c.val ≤ 57 := by simpa [Char.isDigit] using h
  have hi : c.val.toNat ≤ 57 := UInt32.le_iff_toNat_le.1 digit.2
  have ascii : CharClass.isAscii c := by
    simp only [CharClass.isAscii, decide_eq_true_eq, Char.toNat]
    omega
  have before {d : Char} (hd : 57 < d.val.toNat) : ¬d.val ≤ c.val := fun ge => by
    have := UInt32.le_iff_toNat_le.1 ge
    omega
  have upper : c.isUpper = false := decide_eq_false fun range => before (by decide) range.1
  have lower : c.isLower = false :=
    Bool.and_eq_false_iff.2 (.inl (decide_eq_false (before (by decide))))
  have letter : c.isAlpha = false := Bool.or_eq_false_iff.2 ⟨upper, lower⟩
  simp [CharClass.isAlphabetic, ascii, letter]

theorem startsName_of_isDigit {c : Char} (h : c.isDigit) : startsName c = false := by
  have underscore : c ≠ '_' := by rintro rfl; simp at h
  have dollar : c ≠ '$' := by rintro rfl; simp at h
  simp [startsName, isAlphabetic_of_isDigit h, underscore, dollar]

/-! ### Signs -/

/-- A sign of one character or more. -/
def IsSign (w : Text) : Prop := w ∈ longSigns ∨ ∃ c ∈ signs, w = [c]

/-- No sign that is longer than `w` begins the text. -/
def NoLonger (w cs : Text) : Prop := ∀ s ∈ longSigns, s <+: cs → s.length ≤ w.length

theorem noLonger_of_find? {w cs : Text} (h : longSigns.find? (·.isPrefixOf cs) = some w) :
    NoLonger w cs := by
  intro s hs pre
  obtain ⟨-, as, bs, hsplit, has⟩ := List.find?_eq_some_iff_append.1 h
  have sorted : longSigns.Pairwise fun a b => b.length ≤ a.length := by decide
  rw [hsplit] at sorted hs
  rcases List.mem_append.1 hs with hs | hs
  · have := has s hs
    rw [List.isPrefixOf_iff_prefix.2 pre] at this
    cases this
  · rcases List.mem_cons.1 hs with rfl | hs
    · exact Nat.le_refl _
    · exact List.rel_of_pairwise_cons (List.pairwise_append.1 sorted).2.1 hs

theorem find?_longSigns {w cs : Text} (hw : w ∈ longSigns) (pre : w <+: cs) (h : NoLonger w cs) :
    longSigns.find? (·.isPrefixOf cs) = some w := by
  cases hfind : longSigns.find? (·.isPrefixOf cs) with
  | none => exact absurd (List.isPrefixOf_iff_prefix.2 pre) (List.find?_eq_none.1 hfind w hw)
  | some s =>
    have found := List.find?_some hfind
    have pre' := List.isPrefixOf_iff_prefix.1 found
    have le := noLonger_of_find? hfind w hw pre
    have ge := h s (List.mem_of_find?_eq_some hfind) pre'
    rw [List.IsPrefix.eq_of_length (List.prefix_of_prefix_length_le pre pre' le) (by omega)]

theorem two_le_of_longSigns : ∀ s ∈ longSigns, 2 ≤ s.length := by decide

theorem noLonger_singleton {c : Char} {r : Text}
    (h : ∀ d ∈ r.head?, ∀ s ∈ longSigns, ¬[c, d] <+: s) :
    NoLonger [c] (c :: r) := by
  intro s hs pre
  have two := two_le_of_longSigns s hs
  obtain ⟨u, hu⟩ := pre
  match s, two with
  | d :: e :: t, _ =>
    obtain ⟨rfl, rfl⟩ := List.cons.inj hu
    exact absurd (List.prefix_append [d, e] t) (h e rfl _ hs)

/-- What lexemes of other kinds begin with. -/
theorem no_other_of_mem_signs : ∀ c ∈ signs, startsName c = false ∧ c.isDigit = false ∧ c ≠ '#' ∧
    c ≠ '"' ∧ c ≠ '\'' ∧ isBlank c = false := by
  have all : (signs.all fun c => !startsName c && !c.isDigit && c != '#' && c != '"' &&
      c != '\'' && !isBlank c) = true := by decide
  simpa [and_assoc] using all

theorem mem_signs_of_longSigns : ∀ s ∈ longSigns, ∀ c ∈ s.head?, c ∈ signs := by
  have all : (longSigns.all fun s => s.head?.all signs.contains) = true := by decide
  simpa [Option.all_eq_true] using all

theorem IsSign.head {w : Text} (h : IsSign w) : ∃ c ∈ signs, ∃ tail, w = c :: tail := by
  rcases h with h | ⟨c, hc, rfl⟩
  · cases w with
    | nil => exact absurd (two_le_of_longSigns _ h) (by simp)
    | cons c tail => exact ⟨c, mem_signs_of_longSigns _ h c rfl, tail, rfl⟩
  · exact ⟨c, hc, [], rfl⟩

/-! ### Kinds -/

def wordKind (w : Text) : Kind :=
  if keywords.contains (String.ofList w) then .keyword else .identifier

/-- A lexeme that begins with `c` and takes `n` characters of `cs`. -/
inductive Shape (c : Char) (cs : Text) : Kind → Nat → Prop
  | word (hc : startsName c) :
    Shape c cs (wordKind (c :: cs.take (run continuesName cs))) (run continuesName cs)
  | number (hc : c.isDigit ∨ c = '.' ∧ cs.head?.any Char.isDigit) :
    Shape c cs (number (c :: cs)).1 ((number (c :: cs)).2 - 1)
  | color {n : Nat} (hc : c = '#') (hn : n = 8 ∧ 8 ≤ run isHexDigit cs ∨
      n = 6 ∧ 6 ≤ run isHexDigit cs ∧ run isHexDigit cs < 8) : Shape c cs .hexColor n
  | block {n : Nat} (hc : c = '"') (hq : cs.take 2 = ['"', '"'])
    (h : textBlock (cs.drop 2) = some n) : Shape c cs .textBlock (2 + n)
  | string {n : Nat} (hc : c = '"') (hq : cs.take 2 ≠ ['"', '"'])
    (h : quoted '"' cs = (true, n)) : Shape c cs .stringLiteral n
  | char {n : Nat} (hc : c = '\'') (h : quoted '\'' cs = (true, n)) : Shape c cs .charLiteral n
  | sign {w : Text} (hw : IsSign w) (pre : w <+: c :: cs) (h : NoLonger w (c :: cs))
    (hdot : c = '.' → cs.head?.any Char.isDigit = false) :
    Shape c cs .punctuation (w.length - 1)

variable {c : Char} {cs w rest : Text} {k : Kind} {n : Nat}

theorem shape_of_lexeme (h : lexeme c cs = .ok (k, n)) : Shape c cs k n := by
  unfold lexeme at h
  split at h
  · rename_i hc
    obtain ⟨rfl, rfl⟩ := Prod.mk.inj (Except.ok.inj h)
    exact .word hc
  split at h
  · rename_i hc
    have hk := congrArg Prod.fst (Except.ok.inj h)
    have hn := congrArg Prod.snd (Except.ok.inj h)
    simp only [Prod.map_fst, Prod.map_snd, id_eq] at hk hn
    subst hk hn
    exact .number (by simpa using hc)
  rename_i hnumber
  split at h
  · rename_i hc
    dsimp only at h
    split at h
    · rename_i hn
      obtain ⟨rfl, rfl⟩ := Prod.mk.inj (Except.ok.inj h)
      exact .color hc (.inl ⟨rfl, hn⟩)
    split at h
    · rename_i hlt hn
      obtain ⟨rfl, rfl⟩ := Prod.mk.inj (Except.ok.inj h)
      exact .color hc (.inr ⟨rfl, hn, by omega⟩)
    · cases h
  split at h
  · rename_i hq
    simp only [Bool.and_eq_true, decide_eq_true_eq] at hq
    split at h
    · rename_i n hn
      obtain ⟨rfl, rfl⟩ := Prod.mk.inj (Except.ok.inj h)
      exact .block hq.1 hq.2 hn
    · cases h
  rename_i hq
  split at h
  · rename_i hc
    split at h
    · rename_i n hn
      obtain ⟨rfl, rfl⟩ := Prod.mk.inj (Except.ok.inj h)
      simp only [Bool.or_eq_true, decide_eq_true_eq] at hc
      rcases hc with rfl | rfl
      · exact .string rfl (by simpa using hq) hn
      · exact .char rfl hn
    · cases h
  have hdot : c = '.' → cs.head?.any Char.isDigit = false := by
    rintro rfl
    simpa using hnumber
  split at h
  · rename_i s hs
    obtain ⟨rfl, rfl⟩ := Prod.mk.inj (Except.ok.inj h)
    have found := List.find?_some hs
    exact .sign (.inl (List.mem_of_find?_eq_some hs)) (List.isPrefixOf_iff_prefix.1 found)
      (noLonger_of_find? hs) hdot
  · rename_i hs
    split at h
    · rename_i hc
      obtain ⟨rfl, rfl⟩ := Prod.mk.inj (Except.ok.inj h)
      refine .sign (w := [c]) (.inr ⟨c, List.contains_iff_mem.1 hc, rfl⟩) ⟨cs, rfl⟩ ?_ hdot
      intro s hmem pre
      exact absurd (List.isPrefixOf_iff_prefix.2 pre) (List.find?_eq_none.1 hs s hmem)
    · cases h

theorem lexeme_of_shape (h : Shape c cs k n) : lexeme c cs = .ok (k, n) := by
  unfold lexeme
  cases h with
  | word hc => simp only [hc, if_true, wordKind]
  | number hc =>
    have hs : startsName c = false := by
      rcases hc with hc | ⟨rfl, -⟩
      · exact startsName_of_isDigit hc
      · decide
    have hnumber : (c.isDigit || c = '.' && cs.head?.any Char.isDigit) = true := by simpa using hc
    simp only [hs, hnumber, Bool.false_eq_true, if_false, if_true]
    rfl
  | color hc hn =>
    subst hc
    rcases hn with ⟨rfl, hn⟩ | ⟨rfl, hn, hlt⟩
    · simp [show startsName '#' = false by decide, hn]
    · simp [show startsName '#' = false by decide, hn, Nat.not_le.2 hlt]
  | block hc hq h =>
    subst hc
    simp [show startsName '"' = false by decide, hq, h]
  | string hc hq h =>
    subst hc
    simp [show startsName '"' = false by decide, hq, h]
  | char hc h =>
    subst hc
    simp [show startsName '\'' = false by decide, h]
  | @sign w hw pre h hdot =>
    obtain ⟨d, hd, tail, rfl⟩ := hw.head
    obtain ⟨rfl, -⟩ := List.cons_prefix_cons.1 pre
    obtain ⟨hs, hdigit, hcolor, hquote, hapos, -⟩ := no_other_of_mem_signs d hd
    have hnumber : (d.isDigit || d = '.' && cs.head?.any Char.isDigit) = false := by
      simpa [hdigit] using hdot
    simp only [hs, hnumber, hcolor, hquote, hapos, Bool.false_eq_true, if_false, decide_false,
      Bool.false_and, Bool.or_self]
    rcases hw with hw | ⟨e, he, heq⟩
    · rw [find?_longSigns hw pre h]
    · obtain ⟨rfl, rfl⟩ := List.cons.inj heq
      have none_there : longSigns.find? (·.isPrefixOf (d :: cs)) = none := by
        rw [List.find?_eq_none]
        intro s hs pre'
        have := h s hs (List.isPrefixOf_iff_prefix.1 pre')
        have := two_le_of_longSigns s hs
        simp only [List.length_singleton] at *
        omega
      simp [none_there, hd]

theorem IsLexeme.shape (h : IsLexeme w k rest) :
    ∃ c tail, w = c :: tail ∧ Shape c (tail ++ rest) k tail.length := by
  obtain ⟨c, tail, rfl, hlex⟩ := h.measured
  exact ⟨c, tail, rfl, shape_of_lexeme hlex⟩

theorem isLexeme_of_shape {tail : Text} (h : Shape c (tail ++ rest) k tail.length)
    (hc : isBlank c = false) (hslash : c ≠ '/') : IsLexeme (c :: tail) k rest :=
  ⟨⟨c, tail, rfl, lexeme_of_shape h⟩, gap_eq_zero hc fun hc => absurd hc hslash⟩

theorem no_gap_of_isDigit (h : c.isDigit) : isBlank c = false ∧ c ≠ '/' := by
  have no (d : Char) (hd : d.isDigit = false) : c ≠ d := by
    rintro rfl
    rw [h] at hd
    cases hd
  refine ⟨?_, no '/' rfl⟩
  simp [isBlank, no ' ' rfl, no '\t' rfl, no '\r' rfl, no '\n' rfl, no '\x0c' rfl]

theorem no_gap_of_startsName (h : startsName c) : isBlank c = false ∧ c ≠ '/' := by
  have no (d : Char) (hd : startsName d = false) : c ≠ d := by
    rintro rfl
    rw [h] at hd
    cases hd
  refine ⟨?_, no '/' (by decide)⟩
  simp [isBlank, no ' ' (by decide), no '\t' (by decide), no '\r' (by decide),
    no '\n' (by decide), no '\x0c' (by decide)]

/-! ### Words -/

theorem isLexeme_word {tail : Text} (hc : startsName c) (ht : ∀ d ∈ tail, continuesName d)
    (hr : ∀ d ∈ rest.head?, continuesName d = false) :
    IsLexeme (c :: tail) (wordKind (c :: tail)) rest := by
  obtain ⟨blank, slash⟩ := no_gap_of_startsName hc
  have shape := @Shape.word c (tail ++ rest) hc
  rw [run_append ht hr, List.take_left] at shape
  exact isLexeme_of_shape shape blank slash

theorem wordKind_cases (w : Text) : wordKind w = .keyword ∨ wordKind w = .identifier := by
  unfold wordKind
  split
  · exact .inl rfl
  · exact .inr rfl

theorem number_kind (cs : Text) :
    (number cs).1 = .intLiteral ∨ (number cs).1 = .floatLiteral := by
  have dec (cs : Text) : (decimal cs).1 = .intLiteral ∨ (decimal cs).1 = .floatLiteral := by
    rw [decimal_eq]
    split
    · exact .inr rfl
    · exact .inl rfl
  have rad (isHex : Bool) (cs : Text) :
      (radix isHex cs).1 = .intLiteral ∨ (radix isHex cs).1 = .floatLiteral := by
    rw [radix_eq]
    split
    · exact .inr rfl
    · exact .inl rfl
  unfold number
  split
  · rename_i cs
    split
    · exact rad true cs
    split
    · exact rad false cs
    · exact dec _
  · exact dec cs

theorem IsLexeme.exists_word (h : IsLexeme w k rest) (hk : k = .identifier ∨ k = .keyword) :
    ∃ c tail, w = c :: tail ∧ startsName c ∧ (∀ d ∈ tail, continuesName d) ∧ k = wordKind w ∧
      ∀ d ∈ rest.head?, continuesName d = false := by
  obtain ⟨c, tail, rfl, shape⟩ := h.shape
  generalize hn : tail.length = n at shape
  cases shape with
  | word hc =>
    have all := forall_mem_of_run (Nat.le_refl (run continuesName (tail ++ rest)))
    have ends := @head?_drop_run continuesName (tail ++ rest)
    rw [← hn, List.take_left] at all
    rw [← hn, List.drop_left] at ends
    exact ⟨c, tail, rfl, hc, all, by rw [← hn, List.take_left], ends⟩
  | number => rcases number_kind (c :: (tail ++ rest)) with hn | hn <;> simp [hn] at hk
  | _ => simp at hk

theorem IsLexeme.word_congr {rest' : Text} (h : IsLexeme w k rest)
    (hk : k = .identifier ∨ k = .keyword) (hr : ∀ d ∈ rest'.head?, continuesName d = false) :
    IsLexeme w k rest' := by
  obtain ⟨c, tail, rfl, hc, ht, rfl, -⟩ := h.exists_word hk
  exact isLexeme_word hc ht hr

/-! ### Numbers -/

theorem two_le_fraction {d : Char} {cs : Text} (hd : d.isDigit) : 2 ≤ fraction ('.' :: d :: cs) := by
  simp [fraction, digits, run, hd]
  omega

/-- A number is longer than a point by itself. -/
theorem length_number (hc : c.isDigit ∨ c = '.' ∧ cs.head?.any Char.isDigit) :
    1 ≤ (number (c :: cs)).2 ∧ (c = '.' → 2 ≤ (number (c :: cs)).2) := by
  rcases hc with hc | ⟨rfl, hd⟩
  · have dec : 1 ≤ (decimal (c :: cs)).2 := by
      have := decimalStop_le (c :: cs)
      have : 1 ≤ digits (c :: cs) := by simp [digits, run, hc]
      simp only [decimalStop, pointStop] at *
      omega
    refine ⟨?_, fun hdot => by subst hdot; cases hc⟩
    cases cs with
    | nil =>
      by_cases hzero : c = '0'
      · subst hzero
        exact dec
      · rwa [number_of_ne hzero]
    | cons d cs =>
      by_cases hzero : c = '0'
      · subst hzero
        rw [number_of_zero]
        split
        · simp only [Prod.map_snd]
          omega
        split
        · simp only [Prod.map_snd]
          omega
        · exact dec
      · rwa [number_of_ne hzero]
  · cases cs with
    | nil => cases hd
    | cons d cs =>
      have := decimalStop_le ('.' :: d :: cs)
      have := @two_le_fraction d cs (show d.isDigit = true from hd)
      have zero : digits ('.' :: d :: cs) = 0 := by simp [digits, run]
      rw [number_of_ne (by decide)]
      simp only [decimalStop, pointStop, zero, List.drop_zero, Nat.zero_add] at *
      exact ⟨by omega, fun _ => by omega⟩

theorem IsLexeme.isNumber (h : IsLexeme w k rest) (hk : k = .intLiteral ∨ k = .floatLiteral) :
    IsNumber w k ∧ ∃ c tail, w = c :: tail ∧ (c.isDigit ∨ c = '.' ∧ tail.head?.any Char.isDigit) := by
  obtain ⟨c, tail, rfl, shape⟩ := h.shape
  generalize hn : tail.length = n at shape
  cases shape with
  | number hc =>
    obtain ⟨one, two⟩ := length_number hc
    have whole : number (c :: tail ++ rest) =
        ((number (c :: (tail ++ rest))).1, (c :: tail).length) := by
      refine Prod.ext rfl ?_
      simp only [List.cons_append, List.length_cons]
      omega
    refine ⟨isNumber_of_append (List.cons_ne_nil c tail) whole, c, tail, rfl, ?_⟩
    rcases hc with hc | ⟨rfl, hd⟩
    · exact .inl hc
    · cases tail with
      | nil =>
        have := two rfl
        simp only [List.length_nil] at hn
        omega
      | cons d tail => exact .inr ⟨rfl, hd⟩
  | word => rcases wordKind_cases _ with hw | hw <;> rw [hw] at hk <;> simp at hk
  | _ => simp at hk

theorem isLexeme_number {tail : Text} (hc : c.isDigit ∨ c = '.' ∧ tail.head?.any Char.isDigit)
    (h : number (c :: tail ++ rest) = (k, (c :: tail).length)) : IsLexeme (c :: tail) k rest := by
  have first : c.isDigit ∨ c = '.' ∧ (tail ++ rest).head?.any Char.isDigit := by
    rcases hc with hc | ⟨rfl, hd⟩
    · exact .inl hc
    · cases tail with
      | nil => cases hd
      | cons => exact .inr ⟨rfl, hd⟩
  obtain ⟨blank, slash⟩ : isBlank c = false ∧ c ≠ '/' := by
    rcases hc with hc | ⟨rfl, -⟩
    · exact no_gap_of_isDigit hc
    · exact ⟨by decide, by decide⟩
  have shape := Shape.number first
  rw [← List.cons_append, h] at shape
  exact isLexeme_of_shape shape blank slash

/-! ### Colors and quoted literals -/

variable {rest' : Text}

theorem isLexeme_color {tail : Text} (hlen : tail.length = 6 ∨ tail.length = 8)
    (ht : ∀ d ∈ tail, isHexDigit d) (hr : ∀ d ∈ rest.head?, isHexDigit d = false) :
    IsLexeme ('#' :: tail) .hexColor rest := by
  have measured := run_append ht hr
  refine isLexeme_of_shape (.color rfl ?_) (by decide) (by decide)
  rw [measured]
  omega

theorem IsLexeme.exists_color (h : IsLexeme w .hexColor rest) :
    ∃ tail, w = '#' :: tail ∧ (tail.length = 6 ∨ tail.length = 8) ∧ ∀ d ∈ tail, isHexDigit d := by
  obtain ⟨c, tail, rfl, shape⟩ := h.shape
  generalize hk : Kind.hexColor = k at shape
  generalize hn : tail.length = n at shape
  cases shape with
  | color hc hn' =>
    subst hc
    have le : tail.length ≤ run isHexDigit (tail ++ rest) := by omega
    have all := forall_mem_of_run le
    rw [List.take_left] at all
    exact ⟨tail, rfl, by omega, all⟩
  | word => rcases wordKind_cases _ with hw | hw <;> rw [hw] at hk <;> cases hk
  | number => rcases number_kind (c :: (tail ++ rest)) with hw | hw <;> rw [hw] at hk <;> cases hk
  | _ => cases hk

/-- A text block is read to its end whatever follows. -/
theorem textBlock_take {cs : Text} {n : Nat} (h : textBlock cs = some n) (rest : Text) :
    textBlock (cs.take n ++ rest) = some n := by
  have three {cs : Text} {n : Nat} (h : textBlock cs = some n) : 3 ≤ n := by
    fun_induction textBlock cs generalizing n with
    | case1 => simp at h; omega
    | case2 c cs ih =>
      obtain ⟨m, hm, rfl⟩ := Option.map_eq_some_iff.1 h
      have := ih hm
      omega
    | case3 c cs _ _ ih =>
      obtain ⟨m, hm, rfl⟩ := Option.map_eq_some_iff.1 h
      have := ih hm
      omega
    | case4 => cases h
  fun_induction textBlock cs generalizing n with
  | case1 =>
    obtain rfl := Option.some.inj h
    rfl
  | case2 c cs ih =>
    obtain ⟨m, hm, rfl⟩ := Option.map_eq_some_iff.1 h
    rw [show 2 + m = m + 1 + 1 by omega, List.take_succ_cons, List.take_succ_cons]
    simp only [List.cons_append, textBlock, ih hm, Option.map_some]
    congr 1
    omega
  | case3 c cs hquotes hescape ih =>
    obtain ⟨m, hm, rfl⟩ := Option.map_eq_some_iff.1 h
    have le := textBlock_le hm
    have ge := three hm
    obtain ⟨a, b, cs, rfl⟩ : ∃ a b ds, cs = a :: b :: ds := by
      match cs with
      | [] | [_] => simp at le; omega
      | a :: b :: ds => exact ⟨a, b, ds, rfl⟩
    obtain ⟨m, rfl⟩ : ∃ l, m = l + 1 + 1 := ⟨m - 2, by omega⟩
    have behind := ih hm
    rw [show 1 + (m + 1 + 1) = m + 1 + 1 + 1 by omega, List.take_succ_cons]
    simp only [List.take_succ_cons, List.cons_append] at behind ⊢
    rw [textBlock, behind]
    · simp only [Option.map_some]
      congr 1
      omega
    · rintro ds rfl hds
      rw [List.cons.injEq, List.cons.injEq] at hds
      obtain ⟨rfl, rfl, -⟩ := hds
      exact hquotes _ rfl rfl
    · rintro d ds rfl hds
      exact hescape a (b :: cs) rfl rfl
  | case4 => cases h

theorem quoted_take {quote : Char} (hquote : quote ≠ '\\') {cs : Text} {n : Nat}
    (h : quoted quote cs = (true, n)) (rest : Text) : quoted quote (cs.take n ++ rest) = (true, n) := by
  fun_induction quoted quote cs generalizing n with
  | case1 c cs ih =>
    have hfst := congrArg Prod.fst h
    have hsnd := congrArg Prod.snd h
    simp only [Prod.map_fst, Prod.map_snd, id_eq] at hfst hsnd
    have behind := ih (n := (quoted quote cs).2) (Prod.ext hfst rfl)
    rw [← hsnd, show 2 + (quoted quote cs).2 = (quoted quote cs).2 + 1 + 1 by omega,
      List.take_succ_cons, List.take_succ_cons]
    simp only [List.cons_append, quoted, behind, Prod.map, id_eq]
    congr 1
    omega
  | case2 => cases h
  | case3 cs hescape hline =>
    obtain ⟨-, rfl⟩ := Prod.mk.inj h
    simp only [List.take_succ_cons, List.take_zero, List.cons_append, List.nil_append]
    rw [quoted]
    · simp [hline]
    · exact fun d ds hc => absurd hc hquote
  | case4 c cs hescape hline hclose ih =>
    have hfst := congrArg Prod.fst h
    have hsnd := congrArg Prod.snd h
    simp only [Prod.map_fst, Prod.map_snd, id_eq] at hfst hsnd
    have behind := ih (n := (quoted quote cs).2) (Prod.ext hfst rfl)
    rw [← hsnd, show 1 + (quoted quote cs).2 = (quoted quote cs).2 + 1 by omega,
      List.take_succ_cons, List.cons_append, quoted, behind]
    · simp [hline, hclose, Nat.add_comm]
    · rintro d ds rfl hds
      cases cs with
      | nil => simp [quoted] at hfst
      | cons e cs => exact hescape e cs rfl rfl
  | case5 => cases h

theorem IsLexeme.block_congr (h : IsLexeme w .textBlock rest) (rest' : Text) :
    IsLexeme w .textBlock rest' := by
  obtain ⟨c, tail, rfl, shape⟩ := h.shape
  generalize hk : Kind.textBlock = k at shape
  generalize hn : tail.length = n at shape
  cases shape with
  | block hc hq hblock =>
    subst hc
    obtain ⟨a, b, t, rfl⟩ : ∃ a b ds, tail = a :: b :: ds := by
      match tail with
      | [] | [_] => simp at hn; omega
      | a :: b :: ds => exact ⟨a, b, ds, rfl⟩
    simp only [List.cons_append, List.take_succ_cons, List.take_zero, List.cons.injEq,
      and_true] at hq
    obtain ⟨rfl, rfl⟩ := hq
    simp only [List.length_cons, List.cons_append, List.drop_succ_cons,
      List.drop_zero] at hn hblock
    have behind := textBlock_take hblock rest'
    rename_i m
    obtain rfl : m = t.length := by omega
    rw [List.take_left] at behind
    have shape := @Shape.block '"' ('"' :: '"' :: (t ++ rest')) _ rfl rfl behind
    refine isLexeme_of_shape ?_ (by decide) (by decide)
    rw [List.length_cons, List.length_cons, show t.length + 1 + 1 = 2 + t.length by omega]
    exact shape
  | word => rcases wordKind_cases _ with hw | hw <;> rw [hw] at hk <;> cases hk
  | number => rcases number_kind (c :: (tail ++ rest)) with hw | hw <;> rw [hw] at hk <;> cases hk
  | _ => cases hk

theorem IsLexeme.char_congr (h : IsLexeme w .charLiteral rest) (rest' : Text) :
    IsLexeme w .charLiteral rest' := by
  obtain ⟨c, tail, rfl, shape⟩ := h.shape
  generalize hk : Kind.charLiteral = k at shape
  generalize hn : tail.length = n at shape
  cases shape with
  | char hc h =>
    subst hc hn
    have behind := quoted_take (by decide) h rest'
    rw [List.take_left] at behind
    exact isLexeme_of_shape (.char rfl behind) (by decide) (by decide)
  | word => rcases wordKind_cases _ with hw | hw <;> rw [hw] at hk <;> cases hk
  | number => rcases number_kind (c :: (tail ++ rest)) with hw | hw <;> rw [hw] at hk <;> cases hk
  | _ => cases hk

/-- A string in front of a quote would be read as the start of a text block if it is empty. -/
theorem IsLexeme.string_congr (h : IsLexeme w .stringLiteral rest)
    (hr : rest'.head? ≠ some '"') : IsLexeme w .stringLiteral rest' := by
  obtain ⟨c, tail, rfl, shape⟩ := h.shape
  generalize hk : Kind.stringLiteral = k at shape
  generalize hn : tail.length = n at shape
  cases shape with
  | string hc hq h =>
    subst hc hn
    have behind := quoted_take (by decide) h rest'
    rw [List.take_left] at behind
    refine isLexeme_of_shape (.string rfl ?_ behind) (by decide) (by decide)
    match tail with
    | [] =>
      intro hquotes
      cases rest' with
      | nil => cases hquotes
      | cons d rest' =>
        obtain ⟨rfl, -⟩ := List.cons.inj hquotes
        exact hr rfl
    | [d] =>
      intro hquotes
      cases rest' with
      | nil => cases hquotes
      | cons e rest' =>
        simp only [List.cons_append, List.nil_append, List.take_succ_cons, List.take_zero,
          List.cons.injEq, and_true] at hquotes
        obtain ⟨-, rfl⟩ := hquotes
        exact hr rfl
    | d :: e :: tail => exact hq
  | word => rcases wordKind_cases _ with hw | hw <;> rw [hw] at hk <;> cases hk
  | number => rcases number_kind (c :: (tail ++ rest)) with hw | hw <;> rw [hw] at hk <;> cases hk
  | _ => cases hk

/-! ### Signs in front of other text -/

/-- What long signs go on with. -/
def signTails : Text := "=.>:+-&|<".toList

theorem mem_signTails : ∀ s ∈ longSigns, ∀ d ∈ s.tail, d ∈ signTails := by
  have all : (longSigns.all fun s => s.tail.all signTails.contains) = true := by decide
  simpa using all

theorem not_of_mem_signTails : ∀ d ∈ signTails, d.isDigit = false ∧ d ≠ '/' ∧ d ≠ '*' := by
  have all : (signTails.all fun d => !d.isDigit && d != '/' && d != '*') = true := by
    decide
  simpa [and_assoc] using all

theorem IsSign.tail {tail : Text} (h : IsSign (c :: tail)) : ∀ d ∈ tail, d ∈ signTails := by
  rcases h with h | ⟨d, -, heq⟩
  · exact mem_signTails _ h
  · obtain ⟨-, rfl⟩ := List.cons.inj heq
    simp

theorem isLexeme_sign (hw : IsSign w) (hmax : NoLonger w (w ++ rest))
    (hdot : w = ['.'] → ∀ d ∈ rest.head?, d.isDigit = false)
    (hslash : w = ['/'] → ∀ d ∈ rest.head?, d ≠ '/' ∧ d ≠ '*') :
    IsLexeme w .punctuation rest := by
  obtain ⟨c, hc, tail, rfl⟩ := hw.head
  have first : c = '.' → (tail ++ rest).head?.any Char.isDigit = false := by
    rintro rfl
    cases tail with
    | nil => simpa [Option.any_eq_false] using hdot rfl
    | cons d tail => exact (not_of_mem_signTails d (hw.tail d (.head _))).1
  refine ⟨⟨c, tail, rfl, lexeme_of_shape (.sign hw (List.prefix_append ..) hmax first)⟩, ?_⟩
  refine gap_eq_zero (no_other_of_mem_signs c hc).2.2.2.2.2 ?_
  rintro rfl
  cases tail with
  | nil => exact hslash rfl
  | cons d tail =>
    rintro e he
    obtain rfl := Option.some.inj he
    exact (not_of_mem_signTails d (hw.tail d (.head _))).2

theorem IsLexeme.exists_sign (h : IsLexeme w .punctuation rest) :
    IsSign w ∧ NoLonger w (w ++ rest) ∧ (w = ['.'] → ∀ d ∈ rest.head?, d.isDigit = false) ∧
      (w = ['/'] → ∀ d ∈ rest.head?, d ≠ '/' ∧ d ≠ '*') := by
  have no_gap := h.no_gap
  obtain ⟨c, tail, rfl, shape⟩ := h.shape
  generalize hk : Kind.punctuation = k at shape
  generalize hn : tail.length = n at shape
  cases shape with
  | @sign w hw pre hmax hdot =>
    obtain ⟨d, hd, t, rfl⟩ := hw.head
    obtain ⟨rfl, pre⟩ := List.cons_prefix_cons.1 pre
    obtain rfl : t = tail := by
      rename_i pre'
      have := List.prefix_iff_eq_take.1 pre'
      rwa [show t.length = tail.length by simp at hn; omega, List.take_left] at this
    refine ⟨hw, hmax, ?_, ?_⟩
    · rintro hdot' e he
      obtain ⟨rfl, rfl⟩ := List.cons.inj hdot'
      have := hdot rfl
      rw [List.nil_append, Option.mem_def.1 he] at this
      simpa using this
    · rintro hslash e he
      obtain ⟨rfl, rfl⟩ := List.cons.inj hslash
      obtain ⟨rest, rfl⟩ := List.head?_eq_some_iff.1 he
      constructor
      · rintro rfl
        simp [gap_line] at no_gap
      · rintro rfl
        simp [gap_block] at no_gap
  | word => rcases wordKind_cases _ with hw | hw <;> rw [hw] at hk <;> cases hk
  | number => rcases number_kind (c :: (tail ++ rest)) with hw | hw <;> rw [hw] at hk <;> cases hk
  | _ => cases hk

theorem le_three_of_longSigns : ∀ s ∈ longSigns, s.length ≤ 3 := by decide

theorem three_of_longSigns : ∀ s ∈ longSigns, s.length = 3 →
    s = ['.', '.', '.'] ∨ s.take 2 ∈ longSigns := by decide

/-- A sign stays one in front of what begins alike or cannot go on with it. -/
theorem IsLexeme.sign_congr (h : IsLexeme w .punctuation rest)
    (hr : ∀ d ∈ rest'.head?, d ∉ signTails ∨ rest.head? = some d)
    (hpoints : w = ['.'] → rest'.take 2 = ['.', '.'] → rest.take 2 = ['.', '.'])
    (hdot : w = ['.'] → ∀ d ∈ rest'.head?, d.isDigit = false)
    (hslash : w = ['/'] → ∀ d ∈ rest'.head?, d ≠ '/' ∧ d ≠ '*') :
    IsLexeme w .punctuation rest' := by
  obtain ⟨hw, hmax, -, -⟩ := h.exists_sign
  refine isLexeme_sign hw ?_ hdot hslash
  intro s hs pre
  refine Nat.not_lt.1 fun hlt => ?_
  -- the longer sign takes the first character of what follows
  obtain ⟨t, rfl⟩ : ∃ t, s = w ++ t := by
    obtain ⟨u, hu⟩ := pre
    rw [List.append_eq_append_iff] at hu
    obtain ⟨a, rfl, -⟩ | ⟨t, rfl, -⟩ := hu
    · rw [List.length_append] at hlt
      omega
    · exact ⟨t, rfl⟩
  obtain ⟨d, t, rfl⟩ : ∃ d u, t = d :: u := by
    cases t with
    | nil => simp at hlt
    | cons d u => exact ⟨d, u, rfl⟩
  obtain ⟨u, rfl⟩ : ∃ u, rest' = d :: u := by
    rw [List.prefix_append_right_inj] at pre
    obtain ⟨u, rfl⟩ := pre
    exact ⟨t ++ u, rfl⟩
  obtain ⟨c, -, tail, rfl⟩ := hw.head
  have inner : d ∈ signTails := mem_signTails _ hs d (by simp)
  obtain ⟨r, rfl⟩ : ∃ r, rest = d :: r := by
    rcases hr d rfl with hno | hhead
    · exact absurd inner hno
    · exact List.head?_eq_some_iff.1 hhead
  have grown : ∀ s ∈ longSigns, s <+: c :: tail ++ d :: r → s.length ≤ tail.length + 1 := hmax
  cases t with
  | nil =>
    have := grown _ hs ⟨r, by simp⟩
    simp only [List.length_append, List.length_cons, List.length_nil] at this
    omega
  | cons e t =>
    have three := le_three_of_longSigns _ hs
    simp only [List.length_append, List.length_cons] at three
    obtain rfl : tail = [] := List.eq_nil_of_length_eq_zero (by omega)
    obtain rfl : t = [] := List.eq_nil_of_length_eq_zero (by omega)
    rcases three_of_longSigns _ hs rfl with hpoint | hsub
    · simp only [List.singleton_append, List.cons.injEq, and_true] at hpoint
      obtain ⟨rfl, rfl, rfl⟩ := hpoint
      obtain ⟨u, rfl⟩ : ∃ v, u = '.' :: v := by
        rw [List.prefix_append_right_inj, List.cons_prefix_cons] at pre
        obtain ⟨v, rfl⟩ := pre.2
        exact ⟨v, rfl⟩
      have two := hpoints rfl rfl
      obtain ⟨r, rfl⟩ : ∃ q, r = '.' :: q := by
        cases r with
        | nil => cases two
        | cons f q =>
          simp only [List.take_succ_cons, List.take_zero, List.cons.injEq, and_true] at two
          exact ⟨q, by rw [two.2]⟩
      have := grown _ hs ⟨r, rfl⟩
      simp at this
    · have := grown _ hsub ⟨r, rfl⟩
      simp at this

end SketchPrep.Token.Lexer
