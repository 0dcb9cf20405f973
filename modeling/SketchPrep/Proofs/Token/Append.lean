import SketchPrep.Proofs.Token.Lexeme

/-!
Texts put behind one another. A blank, a semicolon or a closing brace ends whatever is being read, so
that a lexeme of a text stays one when a text that begins so is put behind it. Main statement: `tokenize_append`, the
tokens of both texts are read one after the other, unless the first text leaves a comment open.
-/

namespace SketchPrep

open Text

namespace Token

namespace Lexer

variable {c : Char} {cs u w x rest : Text} {k : Kind} {n pos : Nat}

/-! ### Stops -/

/-- A blank, or a sign that declarations and statements end with, which no longer sign has in it. -/
def isStop (c : Char) : Bool := isBlank c || c = ';' || c = '\x7d'

/-- Nothing but a stop begins the text. -/
def StartsStop (x : Text) : Prop := ∀ c ∈ x.head?, isStop c

theorem isStop_of_isBlank (h : isBlank c) : isStop c := by simp [isStop, h]

theorem eq_false_of_isStop {p : Char → Bool} (h : isStop c)
    (none : [' ', '\t', '\r', '\n', '\x0c', ';', '\x7d'].all fun d => !p d) : p c = false := by
  have mem : c ∈ [' ', '\t', '\r', '\n', '\x0c', ';', '\x7d'] := by
    simpa [isStop, isBlank, or_assoc] using h
  simpa using List.all_eq_true.1 none c mem

theorem ne_of_isStop {d : Char} (h : isStop c) (hd : isStop d = false) : c ≠ d := by
  rintro rfl
  rw [h] at hd
  cases hd

theorem continuesNumber_of_isStop (h : isStop c) : continuesNumber c = false :=
  eq_false_of_isStop h (by decide)

theorem continuesName_of_isStop (h : isStop c) : continuesName c = false :=
  eq_false_of_isStop h (by decide)

theorem isHexDigit_of_isStop (h : isStop c) : isHexDigit c = false :=
  eq_false_of_isStop h (by decide)

theorem isFloatSuffix_of_isStop (h : isStop c) : isFloatSuffix c = false :=
  eq_false_of_isStop h (by decide)

theorem isLongSuffix_of_isStop (h : isStop c) : isLongSuffix c = false :=
  eq_false_of_isStop h (by decide)

/-- A class without stops does not go on in a text that begins with one. -/
theorem StartsStop.run_append {p : Char → Bool} (hx : StartsStop x)
    (hp : ∀ {c}, isStop c → p c = false) (u : Text) : run p (u ++ x) = run p u :=
  run_append_of_head (fun c hc => hp (hx c hc)) u

theorem StartsStop.suffix_append {p : Char → Bool} (hx : StartsStop x)
    (hp : ∀ {c}, isStop c → p c = false) (u : Text) : suffix p (u ++ x) = suffix p u :=
  Lexer.suffix_append fun _ c hc => hp (hx c hc)

theorem StartsStop.not_digit (hx : StartsStop x) :
    ∀ c ∈ x.head?, c.isDigit = false ∧ c ≠ '_' := fun c hc =>
  ⟨eq_false_of_isStop (hx c hc) (by decide), ne_of_isStop (hx c hc) (by decide)⟩

/-! ### Numbers -/

theorem StartsStop.fraction_append (hx : StartsStop x) (u : Text) :
    fraction (u ++ x) = fraction u := by
  refine Lexer.fraction_append hx.not_digit (fun _ => ?_) (fun _ c hc => ?_)
  · cases x with
    | nil => rfl
    | cons c x =>
      have point : c ≠ '.' := ne_of_isStop (hx c rfl) (by decide)
      cases x <;> simp [fraction, point]
  · exact ⟨eq_false_of_isStop (hx c hc) (by decide), ne_of_isStop (hx c hc) (by decide)⟩

theorem StartsStop.exponent_append (hx : StartsStop x) (u : Text) :
    exponent (u ++ x) = exponent u := by
  refine Lexer.exponent_append hx.not_digit (fun _ c hc => ?_) (fun e _ => .inr fun c hc => ?_)
  · exact ⟨ne_of_isStop (hx c hc) (by decide), ne_of_isStop (hx c hc) (by decide)⟩
  · exact ⟨ne_of_isStop (hx c hc) (by decide), ne_of_isStop (hx c hc) (by decide)⟩

theorem pointStop_le (cs : Text) : pointStop cs ≤ cs.length := by
  have whole := digits_le cs
  have point := fraction_le (cs.drop (digits cs))
  rw [List.length_drop] at point
  rw [pointStop]
  omega

theorem StartsStop.pointStop_append (hx : StartsStop x) (u : Text) :
    pointStop (u ++ x) = pointStop u := by
  rw [pointStop, digits_append hx.not_digit, List.drop_append_of_le_length (digits_le u),
    hx.fraction_append]
  rfl

theorem StartsStop.decimalStop_append (hx : StartsStop x) (u : Text) :
    decimalStop (u ++ x) = decimalStop u := by
  rw [decimalStop, hx.pointStop_append, List.drop_append_of_le_length (pointStop_le u),
    hx.exponent_append]
  rfl

theorem StartsStop.decimal_append (hx : StartsStop x) (u : Text) :
    decimal (u ++ x) = decimal u := by
  have inside : decimalStop u ≤ u.length := by
    have := decimalStop_le u
    have := decimal_le u
    omega
  exact decimal_congr (digits_append hx.not_digit u) (hx.decimalStop_append u) inside
    (hx.suffix_append isFloatSuffix_of_isStop _)
    (fun _ => hx.suffix_append isLongSuffix_of_isStop _)

theorem StartsStop.hexDigits_append (hx : StartsStop x) (u : Text) :
    hexDigits (u ++ x) = hexDigits u :=
  Lexer.hexDigits_append (fun c hc => not_isHexDigit (continuesNumber_of_isStop (hx c hc))) u

/-- What begins a text and has no stop in it begins the text before the stop. -/
theorem StartsStop.exists_append (hx : StartsStop x) (hw : ∀ c ∈ w, isStop c = false)
    (same : u ++ x = w ++ rest) : ∃ z, u = w ++ z ∧ rest = z ++ x := by
  rw [List.append_eq_append_iff] at same
  obtain ⟨v, rfl, hv⟩ | ⟨z, rfl, hz⟩ := same
  · cases v with
    | nil => exact ⟨[], by simp, by simpa using hv.symm⟩
    | cons c v =>
      have blank := hx c (by rw [hv]; rfl)
      rw [hw c (by simp)] at blank
      cases blank
  · exact ⟨z, rfl, hz⟩

theorem IsHexTail.not_isStop (h : IsHexTail u) : ∀ c ∈ u, isStop c = false := by
  obtain ⟨f, p, s, d, ds, rfl, hf, hp, hs, hd, hds⟩ := h.parts
  have hexDigit {c : Char} (hc : isHexDigit c || c = '_') : isStop c = false := by
    refine Bool.eq_false_iff.2 fun blank => ?_
    have underscore : c ≠ '_' := ne_of_isStop blank (by decide)
    simp [isHexDigit_of_isStop blank, underscore] at hc
  have digit {c : Char} (hc : c.isDigit || c = '_') : isStop c = false := by
    refine hexDigit ?_
    simp only [Bool.or_eq_true, decide_eq_true_eq] at hc ⊢
    exact hc.imp_left fun hc => by simp [isHexDigit, hc]
  intro c hc
  simp only [List.mem_append, List.mem_cons] at hc
  rcases hc with hc | rfl | hc | rfl | hc
  · obtain rfl | ⟨h, rfl, hh⟩ := hf
    · cases hc
    · rcases List.mem_cons.1 hc with rfl | hc
      · decide
      · exact hexDigit (hh c hc)
  · rcases hp with rfl | rfl
    · decide
    · decide
  · rcases hs with rfl | rfl | rfl
    · cases hc
    · rw [List.mem_singleton.1 hc]
      decide
    · rw [List.mem_singleton.1 hc]
      decide
  · exact digit (by simp [hd])
  · exact digit (hds c hc)

theorem StartsStop.hexFloatTail_append (hx : StartsStop x) (u : Text) :
    hexFloatTail (u ++ x) = hexFloatTail u := by
  have behind {z : Text} (hz : ∀ c ∈ z.head?, c.isDigit = false ∧ c ≠ '_') :
      ∀ c ∈ (z ++ x).head?, c.isDigit = false ∧ c ≠ '_' := by
    cases z with
    | nil => exact hx.not_digit
    | cons => exact hz
  cases hu : hexFloatTail u with
  | some n =>
    obtain ⟨v, z, rfl, isTail, hz, rfl⟩ := exists_of_hexFloatTail hu
    rw [List.append_assoc]
    exact hexFloatTail_of_isHexTail isTail (behind hz)
  | none =>
    cases hwhole : hexFloatTail (u ++ x) with
    | none => rfl
    | some n =>
      obtain ⟨v, z, same, isTail, hz, rfl⟩ := exists_of_hexFloatTail hwhole
      obtain ⟨y, rfl, rfl⟩ := hx.exists_append isTail.not_isStop same
      have inside : ∀ c ∈ y.head?, c.isDigit = false ∧ c ≠ '_' := by
        cases y with
        | nil => simp
        | cons => exact hz
      rw [hexFloatTail_of_isHexTail isTail inside] at hu
      cases hu

theorem StartsStop.radix_append (hx : StartsStop x) (isHex : Bool) (u : Text) :
    radix isHex (u ++ x) = radix isHex u := by
  have tail (v : Text) : tail? isHex (v ++ x) = tail? isHex v := by
    cases isHex with
    | false => rfl
    | true => exact hx.hexFloatTail_append v
  rw [radix_eq, radix_eq, hx.hexDigits_append, List.drop_append_of_le_length (hexDigits_le u), tail]
  cases htail : tail? isHex (u.drop (hexDigits u)) with
  | none =>
    dsimp only
    rw [hx.suffix_append isLongSuffix_of_isStop]
  | some n =>
    have le : hexDigits u + n ≤ u.length := by
      obtain ⟨-, v, z, hv, -, -, rfl⟩ := exists_of_tail? htail
      have := congrArg List.length hv
      have := hexDigits_le u
      simp only [List.length_drop, List.length_append] at *
      omega
    dsimp only
    rw [List.drop_append_of_le_length le, hx.suffix_append isFloatSuffix_of_isStop]

theorem StartsStop.number_append (hx : StartsStop x) (hw : w ≠ []) :
    number (w ++ x) = number w := by
  have decimal_case (hwhole : number (w ++ x) = decimal (w ++ x)) (halone : number w = decimal w) :
      number (w ++ x) = number w := by
    rw [hwhole, halone, hx.decimal_append]
  match w with
  | [] => exact absurd rfl hw
  | [c] =>
    by_cases hc : c = '0'
    · subst hc
      refine decimal_case ?_ rfl
      cases x with
      | nil => rfl
      | cons d x =>
        have no (m : Char) (hm : isStop m = false) : d ≠ m := ne_of_isStop (hx d rfl) hm
        rw [List.singleton_append, number_of_zero]
        simp [no 'x' (by decide), no 'X' (by decide), no 'b' (by decide), no 'B' (by decide)]
    · exact decimal_case (number_of_ne hc) (number_of_ne hc)
  | c :: d :: w =>
    by_cases hc : c = '0'
    · subst hc
      have whole := hx.decimal_append ('0' :: d :: w)
      rw [List.cons_append, List.cons_append] at whole ⊢
      rw [number_of_zero, number_of_zero, hx.radix_append, hx.radix_append, whole]
    · exact decimal_case (number_of_ne hc) (number_of_ne hc)

/-! ### Lexemes -/

theorem textBlock_append (h : textBlock cs = some n) (x : Text) : textBlock (cs ++ x) = some n := by
  have behind := textBlock_take h (cs.drop n ++ x)
  rwa [← List.append_assoc, List.take_append_drop] at behind

theorem quoted_append {quote : Char} (hquote : quote ≠ '\\') (h : quoted quote cs = (true, n))
    (x : Text) : quoted quote (cs ++ x) = (true, n) := by
  have behind := quoted_take hquote h (cs.drop n ++ x)
  rwa [← List.append_assoc, List.take_append_drop] at behind

theorem not_isStop_of_longSigns : ∀ s ∈ longSigns, ∀ c ∈ s, isStop c = false := by
  have all : (longSigns.all fun s => s.all fun c => !isStop c) = true := by decide
  simpa using all

theorem NoLonger.append (h : NoLonger w cs) (hx : StartsStop x) : NoLonger w (cs ++ x) := by
  intro s hs pre
  obtain ⟨t, ht⟩ := pre
  obtain ⟨z, rfl, -⟩ := hx.exists_append (not_isStop_of_longSigns s hs) ht.symm
  exact h s hs (List.prefix_append s z)

/-- A lexeme stays one when a stop, or nothing, comes behind its text. -/
theorem Shape.append (h : Shape c cs k n) (hx : StartsStop x) : Shape c (cs ++ x) k n := by
  cases h with
  | word hc =>
    have shape := @Shape.word c (cs ++ x) hc
    rw [hx.run_append continuesName_of_isStop,
      List.take_append_of_le_length (run_le ..)] at shape
    exact shape
  | number hc =>
    have first : c.isDigit ∨ c = '.' ∧ (cs ++ x).head?.any Char.isDigit := by
      rcases hc with hc | ⟨rfl, hd⟩
      · exact .inl hc
      · cases cs with
        | nil => cases hd
        | cons => exact .inr ⟨rfl, hd⟩
    have shape := Shape.number first
    rw [← List.cons_append, hx.number_append (List.cons_ne_nil c cs)] at shape
    exact shape
  | color hc hn =>
    refine .color hc ?_
    rw [hx.run_append isHexDigit_of_isStop]
    exact hn
  | block hc hq h =>
    obtain ⟨a, b, t, rfl⟩ : ∃ a b ds, cs = a :: b :: ds := by
      match cs with
      | [] | [_] => cases hq
      | a :: b :: ds => exact ⟨a, b, ds, rfl⟩
    exact .block hc hq (textBlock_append h x)
  | string hc hq h =>
    refine .string hc ?_ (quoted_append (by decide) h x)
    match cs with
    | [] => cases h
    | [a] =>
      intro quotes
      cases x with
      | nil => cases quotes
      | cons d x =>
        simp only [List.cons_append, List.nil_append, List.take_succ_cons, List.take_zero,
          List.cons.injEq, and_true] at quotes
        exact absurd (hx d rfl) (by rw [quotes.2]; decide)
    | a :: b :: t => exact hq
  | char hc h => exact .char hc (quoted_append (by decide) h x)
  | sign hw pre hmax hdot =>
    refine .sign hw (pre.trans (List.prefix_append (c :: cs) x)) (hmax.append hx) fun hc => ?_
    cases cs with
    | nil => simpa [Option.any_eq_false] using fun d hd => (hx.not_digit d hd).1
    | cons => exact hdot hc

theorem gap_append_eq_zero (h : gap (c :: cs) = 0) (hx : StartsStop x) :
    gap (c :: (cs ++ x)) = 0 := by
  obtain ⟨blank, slash⟩ := not_of_gap_eq_zero h
  refine gap_eq_zero blank fun hc d hd => ?_
  cases cs with
  | nil => exact ⟨ne_of_isStop (hx d hd) (by decide), ne_of_isStop (hx d hd) (by decide)⟩
  | cons e cs => exact slash hc d hd

theorem IsLexeme.append (h : IsLexeme w k rest) (hx : StartsStop x) :
    IsLexeme w k (rest ++ x) := by
  have no_gap := h.no_gap
  obtain ⟨c, tail, rfl, hlex⟩ := h.measured
  refine ⟨⟨c, tail, rfl, ?_⟩, ?_⟩
  · rw [← List.append_assoc]
    exact lexeme_of_shape ((shape_of_lexeme hlex).append hx)
  · rw [← List.append_assoc]
    exact gap_append_eq_zero no_gap hx

/-! ### Texts -/

variable {ls ms : List Outline}

/-- The kind and the spelling of what is read, wherever it stands. -/
def Outline.lexeme (l : Outline) : Kind × String := (l.kind, l.text)

theorem Reads.exists_at (h : Reads pos cs ls) (pos' : Nat) :
    ∃ ls', Reads pos' cs ls' ∧ ls'.map Outline.lexeme = ls.map Outline.lexeme := by
  induction h generalizing pos' with
  | stop hstop => exact ⟨[], .stop hstop, rfl⟩
  | @next pos blank w rest k ls hblank hw _ ih =>
    obtain ⟨ls', reads, same⟩ := ih (pos' + blank.size + w.size)
    exact ⟨_, .next hblank hw reads, by rw [List.map_cons, List.map_cons, same]; rfl⟩

/-- A text is its lexemes up to the last one and a gap; what is read behind the lexemes, the gap
with a stop and more behind it, is read behind them in the whole text. -/
theorem Reads.exists_last (h : Reads pos cs ls) : ∃ a g, cs = a ++ g ∧ gap g = g.length ∧
    ∀ x ms, StartsStop x → Reads (pos + a.size) (g ++ x) ms → Reads pos (cs ++ x) (ls ++ ms) := by
  induction h with
  | @stop pos cs hstop =>
    have all : gap cs = cs.length :=
      Nat.le_antisymm (gap_le cs) (List.drop_eq_nil_iff.1 hstop)
    exact ⟨[], cs, rfl, all, fun x ms _ reads => reads⟩
  | @next pos blank w rest k ls hblank hw _ ih =>
    obtain ⟨a, g, rfl, all, behind⟩ := ih
    refine ⟨blank ++ w ++ a, g, by simp, all, fun x ms hx reads => ?_⟩
    have last := behind x ms hx (by simpa only [size_append, Nat.add_assoc] using reads)
    rw [List.append_assoc, List.append_assoc]
    exact .next hblank (hw.append hx) last

theorem Reads.append_or_opens (h : Reads pos cs ls) (hms : Reads 0 x ms)
    (hx : x.head? = some '\n') :
    (∃ ms', Reads pos (cs ++ x) (ls ++ ms') ∧ ms'.map Outline.lexeme = ms.map Outline.lexeme) ∨
      ∃ a body, cs = a ++ '/' :: '*' :: body ∧ ¬['*', '/'] <:+: body ∧
        (¬['*', '/'] <:+: x → Reads pos (cs ++ x) ls) := by
  have blank : StartsStop x := by
    intro c hc
    obtain rfl := Option.some.inj (hx.symm.trans hc)
    decide
  obtain ⟨a, g, rfl, all, behind⟩ := h.exists_last
  rcases endsOrOpens all hx with ends | ⟨b, body, rfl, opened, swallowed⟩
  · left
    obtain ⟨ms', reads, same⟩ := hms.exists_at (pos + a.size + g.size)
    exact ⟨ms', behind x ms' blank (reads.prepend ends), same⟩
  · right
    refine ⟨a ++ b, body, by simp, opened, fun hno => ?_⟩
    -- the open comment and `x` are one gap, behind which nothing is left to read
    have nothing : Reads (pos + a.size) (b ++ '/' :: '*' :: body ++ x) [] := by
      refine .stop ?_
      rw [swallowed hno, List.drop_length]
    have reads := behind x [] blank nothing
    rwa [List.append_nil] at reads

end Lexer

end Token

/-- The kinds and the spellings of the tokens. -/
def Tokens.lexemes (ts : Tokens) : List (Token.Kind × String) :=
  ts.body.map fun t => (t.kind, t.text)

theorem Tokens.lexemes_eq (ts : Tokens) :
    ts.lexemes = (ts.body.map Token.outline).map Token.Lexer.Outline.lexeme := by
  rw [lexemes, List.map_map]
  rfl

namespace Token

/-- A text that begins with a line feed is read behind another one as it is alone, unless the other
text leaves a block comment open: then it stands in that comment. -/
theorem tokenize_append {u x : Text} {us xs : Tokens} (hu : tokenize u = .ok us)
    (hxs : tokenize x = .ok xs) (hx : x.head? = some '\n') :
    (∃ ts, tokenize (u ++ x) = .ok ts ∧ ts.lexemes = us.lexemes ++ xs.lexemes) ∨
      ∃ a body, u = a ++ '/' :: '*' :: body ∧ ¬['*', '/'] <:+: body ∧
        (¬['*', '/'] <:+: x → ∃ ts, tokenize (u ++ x) = .ok ts ∧ ts.lexemes = us.lexemes) := by
  have first := Lexer.tokenize_iff_reads.2 ⟨us, hu, rfl⟩
  have second := Lexer.tokenize_iff_reads.2 ⟨xs, hxs, rfl⟩
  rcases first.append_or_opens second hx with ⟨ms, reads, same⟩ | ⟨a, body, cut, opened, swallowed⟩
  · left
    obtain ⟨ts, hts, outlines⟩ := Lexer.tokenize_iff_reads.1 reads
    refine ⟨ts, hts, ?_⟩
    rw [ts.lexemes_eq, outlines, List.map_append, same, ← us.lexemes_eq, ← xs.lexemes_eq]
  · right
    refine ⟨a, body, cut, opened, fun hno => ?_⟩
    obtain ⟨ts, hts, outlines⟩ := Lexer.tokenize_iff_reads.1 (swallowed hno)
    refine ⟨ts, hts, ?_⟩
    rw [ts.lexemes_eq, outlines, ← us.lexemes_eq]

end Token

end SketchPrep
