import SketchPrep.Proofs.Token.Append

/-!
The numerals of the language by their parts, and how they are read. Main statement:
`isOneToken_numeral`, an integer is one token, and a decimal float is one unless its point has no
digits behind it and something else.
-/

namespace SketchPrep.Token

open Lexer Text

/-- The text is read as one token of the kind and nothing else. -/
def IsOneToken (w : Text) (k : Kind) : Prop :=
  ∃ ts, tokenize w = .ok ts ∧ ts.lexemes = [(k, String.ofList w)]

/-- Digits, with underscores between them only. -/
structure IsDigits (p : Char → Bool) (w : Text) : Prop where
  first : w.head?.any p
  last : w.getLast?.any p
  all : ∀ c ∈ w, p c || c = '_'

structure IsExponent (w : Text) : Prop where
  parts : ∃ e sign ds, w = e :: (sign ++ ds) ∧ (e = 'e' ∨ e = 'E') ∧
    (sign = [] ∨ sign = ['+'] ∨ sign = ['-']) ∧ IsDigits Char.isDigit ds

/-- A suffix, which may be missing. -/
def IsSuffix (p : Char → Bool) (w : Text) : Prop := w = [] ∨ ∃ c, w = [c] ∧ p c

/-- A decimal float. Without a point it has an exponent or a suffix, and a digit stands on one side
of the point. -/
structure DecimalFloat where
  whole : Text
  fraction? : Option Text
  exponent : Text
  suffix : Text
  isWhole : whole = [] ∨ IsDigits Char.isDigit whole
  isFraction : ∀ f ∈ fraction?, f = [] ∨ IsDigits Char.isDigit f
  isExponent : exponent = [] ∨ IsExponent exponent
  isSuffix : IsSuffix isFloatSuffix suffix
  hasDigit : whole = [] → ∃ f ∈ fraction?, f ≠ []
  hasMark : fraction? = none → exponent ++ suffix ≠ []

/-- An integer with the radix 10 or 16. -/
inductive IsInteger : Text → Prop
  | decimal {ds mark : Text} (hds : IsDigits Char.isDigit ds) (hmark : IsSuffix isLongSuffix mark) :
    IsInteger (ds ++ mark)
  | hex {x : Char} {ds mark : Text} (hx : x = 'x' ∨ x = 'X') (hds : IsDigits isHexDigit ds)
    (hmark : IsSuffix isLongSuffix mark) : IsInteger ('0' :: x :: (ds ++ mark))

namespace DecimalFloat

/-- The point and the digits behind it. -/
def point (x : DecimalFloat) : Text := x.fraction?.elim [] ('.' :: ·)

/-- What stands behind the point and its digits. -/
def tail (x : DecimalFloat) : Text := x.exponent ++ x.suffix

def text (x : DecimalFloat) : Text := x.whole ++ (x.point ++ x.tail)

/-- An exponent or a suffix stands right behind the point. -/
def HasBarePoint (x : DecimalFloat) : Prop := x.fraction? = some [] ∧ x.tail ≠ []

end DecimalFloat

/-! ### One token -/

namespace Lexer

variable {w cs : Text} {k : Kind} {c : Char}

theorem IsLexeme.exists_reads (h : IsLexeme w k []) (pos : Nat) :
    ∃ l, Reads pos w [l] ∧ Outline.lexeme l = (k, String.ofList w) := by
  have reads := @Reads.next pos _ _ _ _ _ closed_nil h (.stop (by simp [gap]))
  rw [List.append_nil, List.nil_append] at reads
  exact ⟨_, reads, rfl⟩

theorem IsLexeme.isOneToken (h : IsLexeme w k []) : IsOneToken w k := by
  obtain ⟨l, reads, text⟩ := h.exists_reads 0
  obtain ⟨ts, hts, outlines⟩ := tokenize_iff_reads.1 reads
  refine ⟨ts, hts, ?_⟩
  rw [Tokens.lexemes_eq, outlines, List.map_singleton, text]

theorem isLexeme_of_isOneToken (h : IsOneToken w k) : IsLexeme w k [] := by
  obtain ⟨ts, hts, only⟩ := h
  have reads := tokenize_iff_reads.2 ⟨ts, hts, rfl⟩
  rw [Tokens.lexemes_eq] at only
  generalize ts.body.map outline = ls at reads only
  generalize whole : w = source at reads
  cases reads with
  | stop => cases only
  | @next _ blank word rest k' ls _ lexeme =>
    obtain ⟨same, -⟩ := List.cons.inj only
    obtain ⟨kind, text⟩ := Prod.mk.inj same
    have whole' := String.ofList_injective text
    have lengths := congrArg List.length whole
    rw [← whole', List.length_append, List.length_append] at lengths
    obtain rfl := List.eq_nil_of_length_eq_zero (l := rest) (by omega)
    rw [← whole, ← whole', ← kind]
    exact lexeme

/-- What begins as a number is one token if it is a number. -/
theorem isOneToken_iff (hc : c.isDigit ∨ c = '.' ∧ cs.head?.any Char.isDigit)
    (hk : k = .intLiteral ∨ k = .floatLiteral) :
    IsOneToken (c :: cs) k ↔ IsNumber (c :: cs) k := by
  constructor
  · intro h
    exact ((isLexeme_of_isOneToken h).isNumber hk).1
  · intro h
    refine IsLexeme.isOneToken (isLexeme_number hc ?_)
    rw [List.append_nil]
    exact h

end Lexer

/-! ### Parts of a numeral -/

section

variable {w : Text}

theorem IsDigits.ne_nil {p : Char → Bool} (h : IsDigits p w) : w ≠ [] := by
  rintro rfl
  exact absurd h.first Bool.false_ne_true

theorem IsDigits.exists_cons {p : Char → Bool} (h : IsDigits p w) :
    ∃ d ds, w = d :: ds ∧ p d := by
  cases w with
  | nil => exact absurd rfl h.ne_nil
  | cons d ds => exact ⟨d, ds, rfl, h.first⟩

theorem IsDigits.measured {x : Text} (h : IsDigits Char.isDigit w)
    (hx : ∀ c ∈ x.head?, c.isDigit = false ∧ c ≠ '_') : digits (w ++ x) = w.length :=
  run_append h.all fun c hc => by simp [hx c hc]

theorem IsSuffix.measured {p : Char → Bool} (h : IsSuffix p w) :
    Lexer.suffix p w = w.length := by
  rcases h with rfl | ⟨c, rfl, hc⟩
  · rfl
  · simp [suffix, hc]

theorem fraction_of_ne (h : ∀ c ∈ w.head?, c ≠ '.') : fraction w = 0 := by
  match w with
  | [] => rfl
  | [c] => simp [fraction, h c rfl]
  | c :: d :: w => simp [fraction, h c rfl]

theorem IsExponent.exists_cons (h : IsExponent w) : ∃ e es, w = e :: es ∧ (e = 'e' ∨ e = 'E') := by
  obtain ⟨e, sign, ds, rfl, he, -⟩ := h.parts
  exact ⟨e, _, rfl, he⟩

theorem IsExponent.measured {x : Text} (h : IsExponent w)
    (hx : ∀ c ∈ x.head?, c.isDigit = false ∧ c ≠ '_') : Lexer.exponent (w ++ x) = w.length := by
  obtain ⟨e, sign, ds, rfl, he, hsign, hds⟩ := h.parts
  have digits := hds.measured hx
  obtain ⟨d, ds, rfl, hd⟩ := hds.exists_cons
  have mark : (decide (e = 'e') || decide (e = 'E')) = true := by simpa using he
  rcases hsign with rfl | rfl | rfl
  · simp only [List.cons_append, List.nil_append] at digits ⊢
    rw [exponent, if_pos mark, if_pos hd, digits, Nat.add_comm]
    rfl
  all_goals
    simp only [List.cons_append, List.nil_append] at digits ⊢
    rw [exponent, if_pos mark, digits]
    simp only [List.head?_cons, Option.any_some, hd, List.length_cons]
    rw [if_neg (by decide), if_pos (by decide)]
    omega

/-- Without the mark of another radix behind a zero a number is decimal. -/
theorem number_eq_decimal (h : ∀ c ∈ w, c ≠ 'x' ∧ c ≠ 'X' ∧ c ≠ 'b' ∧ c ≠ 'B') :
    number w = decimal w := by
  match w with
  | [] => rfl
  | [c] => rw [number]; simp
  | c :: d :: w =>
    by_cases zero : c = '0'
    · subst zero
      obtain ⟨x, X, b, B⟩ := h d (by simp)
      simp [number_of_zero, x, X, b, B]
    · exact number_of_ne zero

end

namespace DecimalFloat

variable (x : DecimalFloat)

/-- Behind the digits a name begins, or nothing is left. -/
theorem head_tail : ∀ c ∈ x.tail.head?,
    c.isDigit = false ∧ c ≠ '_' ∧ c ≠ '.' ∧ startsName c := by
  intro c hc
  have letter : c = 'e' ∨ c = 'E' ∨ isFloatSuffix c := by
    rcases x.isExponent with none | isExponent
    · rcases x.isSuffix with none' | ⟨d, one, hd⟩
      · simp [tail, none, none'] at hc
      · simp [tail, none, one] at hc
        exact .inr (.inr (hc ▸ hd))
    · obtain ⟨e, es, cons, he⟩ := isExponent.exists_cons
      simp [tail, cons] at hc
      subst hc
      exact he.imp_right .inl
  simp only [isFloatSuffix, Bool.or_eq_true, decide_eq_true_eq] at letter
  rcases letter with rfl | rfl | ((rfl | rfl) | rfl) | rfl <;> decide +kernel

theorem digits_text : digits x.text = x.whole.length := by
  have behind : ∀ c ∈ (x.point ++ x.tail).head?, c.isDigit = false ∧ c ≠ '_' := by
    intro c hc
    unfold point at hc
    cases h : x.fraction? with
    | none =>
      rw [h] at hc
      exact ⟨(x.head_tail c hc).1, (x.head_tail c hc).2.1⟩
    | some f =>
      rw [h] at hc
      obtain rfl : '.' = c := by simpa using hc
      exact ⟨rfl, by decide⟩
  rcases x.isWhole with none | isDigits
  · rw [text, none, List.nil_append]
    cases h : x.point ++ x.tail with
    | nil => rfl
    | cons c cs => simp [digits, run, behind c (by simp [h])]
  · exact isDigits.measured behind

theorem fraction_point (bare : ¬x.HasBarePoint) :
    fraction (x.point ++ x.tail) = x.point.length := by
  unfold point
  cases h : x.fraction? with
  | none => exact fraction_of_ne fun c hc => (x.head_tail c hc).2.2.1
  | some f =>
    rcases x.isFraction f h with rfl | isDigits
    · have none : x.tail = [] := by
        by_contra more
        exact bare ⟨h, more⟩
      rw [none]
      rfl
    · have digits := isDigits.measured fun c hc => ⟨(x.head_tail c hc).1, (x.head_tail c hc).2.1⟩
      obtain ⟨d, ds, rfl, hd⟩ := isDigits.exists_cons
      rw [List.cons_append] at digits
      simp only [Option.elim_some, List.cons_append, fraction, hd, Bool.true_or, if_true, digits,
        List.length_cons]
      omega

theorem fraction_barePoint (bare : x.HasBarePoint) : fraction (x.point ++ x.tail) = 0 := by
  obtain ⟨point', more⟩ := bare
  cases h : x.tail with
  | nil => exact absurd h more
  | cons c cs =>
    obtain ⟨digit, -, -, name⟩ := x.head_tail c (by simp [h])
    simp [point, point', fraction, digit, name]

theorem exponent_tail : Lexer.exponent x.tail = x.exponent.length := by
  have behind : ∀ c ∈ x.suffix.head?, c.isDigit = false ∧ c ≠ '_' := by
    intro c hc
    rcases x.isSuffix with none | ⟨d, one, hd⟩
    · simp [none] at hc
    · simp only [one, List.head?_cons, Option.mem_some_iff] at hc
      subst hc
      simp only [isFloatSuffix, Bool.or_eq_true, decide_eq_true_eq] at hd
      rcases hd with ((rfl | rfl) | rfl) | rfl <;> decide
  rcases x.isExponent with none | isExponent
  · rw [tail, none, List.nil_append]
    rcases x.isSuffix with none' | ⟨d, one, -⟩
    · rw [none']
      rfl
    · rw [one]
      rfl
  · exact isExponent.measured behind

/-- Read as far as the lexer goes: all of it, or its digits up to a bare point. -/
theorem decimal_text : (¬x.HasBarePoint → decimal x.text = (.floatLiteral, x.text.length)) ∧
    (x.HasBarePoint → decimal x.text = (.intLiteral, x.whole.length)) := by
  have digits := x.digits_text
  have behind : x.text.drop x.whole.length = x.point ++ x.tail := List.drop_left
  refine ⟨fun bare => ?_, fun bare => ?_⟩
  · have stop : pointStop x.text = x.whole.length + x.point.length := by
      rw [pointStop, digits, behind, x.fraction_point bare]
    have tail : x.text.drop (x.whole.length + x.point.length) = x.tail := by
      rw [← List.drop_drop, behind, List.drop_left]
    have stop' : decimalStop x.text = x.whole.length + x.point.length + x.exponent.length := by
      rw [decimalStop, stop, tail, x.exponent_tail]
    have last : x.text.drop (x.whole.length + x.point.length + x.exponent.length) = x.suffix := by
      rw [← List.drop_drop, tail, DecimalFloat.tail, List.drop_left]
    have marked : x.whole.length < x.whole.length + x.point.length + x.exponent.length ∨
        0 < x.suffix.length := by
      cases h : x.fraction? with
      | none =>
        have mark := List.length_pos_iff.2 (x.hasMark h)
        rw [List.length_append] at mark
        omega
      | some f =>
        have : 0 < x.point.length := by simp [point, h]
        omega
    rw [decimal_eq, digits, stop', last, x.isSuffix.measured, if_pos marked]
    simp only [text, DecimalFloat.tail, List.length_append]
    congr 1
    omega
  · have stop : pointStop x.text = x.whole.length := by
      rw [pointStop, digits, behind, x.fraction_barePoint bare, Nat.add_zero]
    have point : x.point = ['.'] := by simp [DecimalFloat.point, bare.1]
    have none : Lexer.exponent (x.point ++ x.tail) = 0 := by
      rw [point]
      cases x.tail <;> rfl
    have stop' : decimalStop x.text = x.whole.length := by
      rw [decimalStop, stop, behind, none, Nat.add_zero]
    rw [decimal_eq, digits, stop', behind, point, if_neg (by simp [Lexer.suffix, isFloatSuffix])]
    rfl

/-- What a float is written with. -/
def letters : Text := "_.eE+-fFdD".toList

theorem mem_letters : ∀ c ∈ x.text, c.isDigit ∨ c ∈ letters := by
  have inDigits {w : Text} (h : IsDigits Char.isDigit w) : ∀ c ∈ w, c.isDigit ∨ c ∈ letters := by
    intro c hc
    have digit := h.all c hc
    simp only [Bool.or_eq_true, decide_eq_true_eq] at digit
    rcases digit with digit | rfl
    · exact .inl digit
    · exact .inr (by decide)
  intro c hc
  simp only [text, tail, List.mem_append] at hc
  rcases hc with hc | hc | hc | hc
  · rcases x.isWhole with none | isDigits
    · simp [none] at hc
    · exact inDigits isDigits c hc
  · unfold point at hc
    cases h : x.fraction? with
    | none => simp [h] at hc
    | some f =>
      rw [h] at hc
      rcases List.mem_cons.1 hc with rfl | hc
      · exact .inr (by decide)
      · rcases x.isFraction f h with rfl | isDigits
        · cases hc
        · exact inDigits isDigits c hc
  · rcases x.isExponent with none | isExponent
    · simp [none] at hc
    · obtain ⟨e, sign, ds, whole, he, hsign, hds⟩ := isExponent.parts
      rw [whole, List.mem_cons, List.mem_append] at hc
      rcases hc with rfl | hc | hc
      · rcases he with rfl | rfl <;> exact .inr (by decide)
      · rcases hsign with rfl | rfl | rfl
        · cases hc
        all_goals
          obtain rfl := List.mem_singleton.1 hc
          exact .inr (by decide)
      · exact inDigits hds c hc
  · rcases x.isSuffix with none | ⟨d, one, hd⟩
    · simp [none] at hc
    · rw [one, List.mem_singleton] at hc
      subst hc
      simp only [isFloatSuffix, Bool.or_eq_true, decide_eq_true_eq] at hd
      rcases hd with ((rfl | rfl) | rfl) | rfl <;> exact .inr (by decide)

theorem number_text : number x.text = decimal x.text := by
  have none : letters.all fun c => c ≠ 'x' && c ≠ 'X' && c ≠ 'b' && c ≠ 'B' := by decide
  refine number_eq_decimal fun c hc => ?_
  rcases x.mem_letters c hc with digit | letter
  · refine ⟨?_, ?_, ?_, ?_⟩ <;> rintro rfl <;> cases digit
  · simpa [and_assoc] using List.all_eq_true.1 none c letter

/-- A float begins with a digit, or with a point and a digit. -/
theorem exists_cons : ∃ c cs, x.text = c :: cs ∧
    (c.isDigit ∨ c = '.' ∧ cs.head?.any Char.isDigit) := by
  rcases x.isWhole with none | isDigits
  · obtain ⟨f, hf, digits⟩ := x.hasDigit none
    obtain ⟨d, ds, rfl, hd⟩ := ((x.isFraction f hf).resolve_left digits).exists_cons
    have point' : x.point = '.' :: d :: ds := by simp [point, Option.mem_def.1 hf]
    exact ⟨'.', d :: ds ++ x.tail, by rw [text, none, point']; rfl, .inr ⟨rfl, hd⟩⟩
  · obtain ⟨d, ds, whole, hd⟩ := isDigits.exists_cons
    exact ⟨d, ds ++ (x.point ++ x.tail), by rw [text, whole]; rfl, .inl hd⟩

theorem isOneToken_iff : IsOneToken x.text .floatLiteral ↔ ¬x.HasBarePoint := by
  obtain ⟨c, cs, cons, first⟩ := x.exists_cons
  obtain ⟨read, short⟩ := x.decimal_text
  rw [cons, Lexer.isOneToken_iff first (.inr rfl), ← cons, IsNumber, number_text]
  constructor
  · intro float bare
    rw [short bare] at float
    cases float
  · exact read

end DecimalFloat

/-! ### Integers -/

theorem isLongSuffix_cases {c : Char} (h : isLongSuffix c) : c = 'l' ∨ c = 'L' := by
  simpa [isLongSuffix] using h

theorem IsInteger.isOneToken {w : Text} (h : IsInteger w) : IsOneToken w .intLiteral := by
  cases h with
  | @decimal ds mark hds hmark =>
    have long := hmark.measured
    have digits : digits (ds ++ mark) = ds.length := by
      refine hds.measured fun c hc => ?_
      rcases hmark with rfl | ⟨d, rfl, hd⟩
      · cases hc
      · obtain rfl := Option.some.inj hc
        rcases isLongSuffix_cases hd with rfl | rfl <;> decide
    have behind : (ds ++ mark).drop ds.length = mark := List.drop_left
    have nothing : fraction mark = 0 ∧ exponent mark = 0 ∧ suffix isFloatSuffix mark = 0 := by
      rcases hmark with rfl | ⟨d, rfl, hd⟩
      · exact ⟨rfl, rfl, rfl⟩
      · rcases isLongSuffix_cases hd with rfl | rfl <;> exact ⟨rfl, rfl, rfl⟩
    have stop : decimalStop (ds ++ mark) = ds.length := by
      rw [decimalStop, pointStop, digits, behind, nothing.1, Nat.add_zero, behind, nothing.2.1,
        Nat.add_zero]
    have read : Lexer.decimal (ds ++ mark) = (.intLiteral, (ds ++ mark).length) := by
      rw [decimal_eq, digits, stop, behind, nothing.2.2, long, if_neg (by simp),
        List.length_append]
    have plain : number (ds ++ mark) = Lexer.decimal (ds ++ mark) := by
      refine number_eq_decimal fun c hc => ?_
      rcases List.mem_append.1 hc with hc | hc
      · have digit := hds.all c hc
        refine ⟨?_, ?_, ?_, ?_⟩ <;> rintro rfl <;> cases digit
      · rcases hmark with rfl | ⟨d, rfl, hd⟩
        · cases hc
        · obtain rfl := List.mem_singleton.1 hc
          rcases isLongSuffix_cases hd with rfl | rfl <;> decide
    obtain ⟨d, ds, rfl, hd⟩ := hds.exists_cons
    exact (Lexer.isOneToken_iff (.inl hd) (.inl rfl)).2 (plain.trans read)
  | @hex x ds mark hx hds hmark =>
    have long := hmark.measured
    have digits : hexDigits (ds ++ mark) = ds.length := by
      refine run_append hds.all fun c hc => ?_
      rcases hmark with rfl | ⟨d, rfl, hd⟩
      · cases hc
      · obtain rfl := Option.some.inj hc
        rcases isLongSuffix_cases hd with rfl | rfl <;> decide
    have behind : (ds ++ mark).drop ds.length = mark := List.drop_left
    have nothing : tail? true mark = none := by
      rcases hmark with rfl | ⟨d, rfl, hd⟩
      · rfl
      · rcases isLongSuffix_cases hd with rfl | rfl <;> rfl
    have read : radix true (ds ++ mark) = (.intLiteral, (ds ++ mark).length) := by
      rw [radix_eq, digits, behind, nothing]
      simp only [long, List.length_append]
    refine (Lexer.isOneToken_iff (.inl rfl) (.inl rfl)).2 ?_
    have isHex : (decide (x = 'x') || decide (x = 'X')) = true := by simpa using hx
    rw [IsNumber, number_of_zero, if_pos isHex, read]
    simp only [Prod.map, id_eq, List.length_cons]
    congr 1
    omega

/-! ### Floats that are torn apart -/

namespace DecimalFloat

variable (x : DecimalFloat)

theorem isLexeme_whole (bare : x.HasBarePoint) :
    IsLexeme x.whole .intLiteral ('.' :: x.tail) := by
  have behind : x.point = ['.'] := by simp [point, bare.1]
  have isDigits := x.isWhole.resolve_left fun none => by
    obtain ⟨f, hf, digits⟩ := x.hasDigit none
    rw [bare.1] at hf
    exact digits (Option.some.inj hf).symm
  have read := x.number_text.trans (x.decimal_text.2 bare)
  rw [text, behind, List.singleton_append] at read
  obtain ⟨d, ds, whole, hd⟩ := isDigits.exists_cons
  rw [whole] at read ⊢
  exact isLexeme_number (.inl hd) read

/-- A point in front of a name, or a sign in front of a number. -/
theorem isLexeme_mark {m : Char} {cs : Text} (hm : m ∈ ['.', '+', '-'])
    (h : ∀ c ∈ cs.head?, startsName c ∨ m ≠ '.' ∧ c.isDigit) :
    IsLexeme [m] .punctuation cs := by
  have names : signTails.all fun d => !startsName d := by decide +kernel
  have digits : signTails.all fun d => !d.isDigit := by decide
  have marks : ['.', '+', '-'].all fun m => signs.contains m && m ≠ '/' := by decide
  obtain ⟨sign, noSlash⟩ : m ∈ signs ∧ m ≠ '/' := by simpa using List.all_eq_true.1 marks m hm
  refine isLexeme_sign (.inr ⟨m, sign, rfl⟩) (noLonger_singleton fun c hc s hs pre => ?_)
    (fun point c hc => ?_) fun slash => absurd (List.cons.inj slash).1 noSlash
  · obtain ⟨t, rfl⟩ := pre
    have sign := mem_signTails _ hs c (by simp)
    have name := List.all_eq_true.1 names c sign
    have digit := List.all_eq_true.1 digits c sign
    rcases h c hc with other | ⟨-, other⟩
    · simp [other] at name
    · simp [other] at digit
  · obtain ⟨rfl, -⟩ := List.cons.inj point
    rcases h c hc with name | ⟨other, -⟩
    · refine Bool.eq_false_iff.2 fun digit => ?_
      rw [startsName_of_isDigit digit] at name
      cases name
    · exact absurd rfl other

/-- Digits and a suffix behind a sign are a number by themselves. -/
theorem exists_isLexeme_digits {ds mark : Text} (hds : IsDigits Char.isDigit ds)
    (hmark : IsSuffix isFloatSuffix mark) : ∃ k, IsLexeme (ds ++ mark) k [] := by
  by_cases none : mark = []
  · have whole := IsInteger.decimal hds (.inl none)
    exact ⟨_, isLexeme_of_isOneToken whole.isOneToken⟩
  · let number : DecimalFloat := ⟨ds, Option.none, [], mark, .inr hds, by simp, .inl rfl, hmark,
      fun missing => absurd missing hds.ne_nil, fun _ => none⟩
    have whole := number.isOneToken_iff.2 fun bare => by cases bare.1
    exact ⟨_, isLexeme_of_isOneToken whole⟩

/-- Behind the point stands a name. Only the sign of an exponent ends it, and then a number
follows. -/
theorem exists_reads_tail (more : x.tail ≠ []) (pos : Nat) : ∃ ls, Reads pos x.tail ls := by
  have letter : ∀ c ∈ x.suffix, continuesName c := by
    intro c hc
    rcases x.isSuffix with none | ⟨d, one, hd⟩
    · simp [none] at hc
    · rw [one, List.mem_singleton] at hc
      subst hc
      simp only [isFloatSuffix, Bool.or_eq_true, decide_eq_true_eq] at hd
      rcases hd with ((rfl | rfl) | rfl) | rfl <;> decide +kernel
  cases h : x.tail with
  | nil => exact absurd h more
  | cons c cs =>
    have first := (x.head_tail c (by simp [h])).2.2.2
    by_cases word : ∀ d ∈ cs, continuesName d
    · obtain ⟨l, reads, -⟩ := (isLexeme_word first word (by simp)).exists_reads pos
      exact ⟨_, reads⟩
    · rcases x.isExponent with none | isExponent
      · rw [tail, none, List.nil_append] at h
        exact absurd (fun d hd => letter d (h ▸ .tail _ hd)) word
      · obtain ⟨e, sign, ds, whole, -, hsign, hds⟩ := isExponent.parts
        rw [tail, whole, List.cons_append] at h
        obtain ⟨rfl, rfl⟩ := List.cons.inj h
        have digits : ∀ d ∈ ds, continuesName d := by
          intro d hd
          have digit := hds.all d hd
          simp only [Bool.or_eq_true, decide_eq_true_eq] at digit
          rcases digit with digit | rfl
          · simp [continuesName, Text.CharClass.isAlphanumeric, digit]
          · decide +kernel
        rcases hsign with rfl | hsign
        · refine absurd (fun d hd => ?_) word
          rw [List.nil_append, List.mem_append] at hd
          exact hd.elim (digits d) (letter d)
        · obtain ⟨m, rfl, hm⟩ : ∃ m, sign = [m] ∧ (m = '+' ∨ m = '-') := by
            rcases hsign with rfl | rfl
            · exact ⟨'+', rfl, .inl rfl⟩
            · exact ⟨'-', rfl, .inr rfl⟩
          have stops : ∀ c ∈ (m :: (ds ++ x.suffix)).head?, continuesName c = false := by
            intro c hc
            obtain rfl := Option.some.inj hc
            rcases hm with rfl | rfl <;> decide +kernel
          have mark : IsLexeme [m] .punctuation (ds ++ x.suffix) := by
            have other : m ≠ '.' := by rcases hm with rfl | rfl <;> decide
            refine isLexeme_mark (by rcases hm with rfl | rfl <;> decide) fun c hc => ?_
            obtain ⟨d, ds', cons, hd⟩ := hds.exists_cons
            rw [cons] at hc
            obtain rfl := Option.some.inj hc
            exact .inr ⟨other, hd⟩
          have name : IsLexeme [e] (wordKind [e]) (m :: (ds ++ x.suffix)) :=
            isLexeme_word first (by simp) stops
          obtain ⟨k, number⟩ := exists_isLexeme_digits hds x.isSuffix
          obtain ⟨l, later, -⟩ :=
            number.exists_reads (pos + 0 + Text.size [e] + 0 + Text.size [m])
          exact ⟨_, .next closed_nil name (.next closed_nil mark later)⟩

/-- A float with a bare point is read as an integer, a point and more. -/
theorem tokenize_of_hasBarePoint (bare : x.HasBarePoint) :
    ∃ ts rest, tokenize x.text = .ok ts ∧
      ts.lexemes = (.intLiteral, String.ofList x.whole) :: (.punctuation, ".") :: rest := by
  have behind : x.point = ['.'] := by simp [point, bare.1]
  have mark : IsLexeme ['.'] .punctuation x.tail :=
    isLexeme_mark (by decide) fun c hc => .inl (x.head_tail c hc).2.2.2
  obtain ⟨ls, later⟩ := x.exists_reads_tail bare.2 (0 + x.whole.size + 1)
  have reads := @Reads.next 0 _ _ _ _ _ closed_nil (x.isLexeme_whole bare)
    (.next closed_nil mark later)
  obtain ⟨ts, hts, outlines⟩ := tokenize_iff_reads.1 reads
  refine ⟨ts, ls.map Outline.lexeme, ?_, ?_⟩
  · rw [text, behind]
    exact hts
  · rw [Tokens.lexemes_eq, outlines]
    rfl

example : (tokenize "1.e5".toList).toOption.map Tokens.lexemes =
    some [(.intLiteral, "1"), (.punctuation, "."), (.identifier, "e5")] := by decide +kernel

end DecimalFloat

/-- An integer with the radix 10 or 16 is one token. A decimal float is one token just if nothing
stands right behind its point, digits aside. -/
theorem isOneToken_numeral :
    (∀ x : DecimalFloat, IsOneToken x.text .floatLiteral ↔ ¬x.HasBarePoint) ∧
      ∀ w, IsInteger w → IsOneToken w .intLiteral :=
  ⟨DecimalFloat.isOneToken_iff, fun _ h => h.isOneToken⟩

end SketchPrep.Token
