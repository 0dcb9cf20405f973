import SketchPrep.Literal
import SketchPrep.Proofs.Token.Lexeme

/-!
Text blocks as string literals. Both are read piece by piece, an escape sequence or a single
character at a time. Main statement: `textBlock_of_tokenize`, a text block becomes one string
literal with the same pieces, of which line ends and quotes are escaped. A line end with a backslash
in front of it is a piece like any other escape sequence, and stays.
-/

namespace SketchPrep.Literal

open Text Token Lexer

variable {body cs rest p : Text} {c : Char} {n : Nat}

/-! ### Pieces -/

/-- Escape sequences and single characters. A backslash takes the next character with it. -/
def pieces : Text → List Text
  | '\\' :: c :: cs => ['\\', c] :: pieces cs
  | c :: cs => [c] :: pieces cs
  | [] => []

/-- A piece as a literal on one line has it. -/
def quotedPiece (p : Text) : Text :=
  if p = ['\n'] then ['\\', 'n']
  else if p = ['\r'] then ['\\', 'r']
  else if p = ['"'] then ['\\', '"']
  else p

theorem pieces_cons (h : c ≠ '\\') (cs : Text) : pieces (c :: cs) = [c] :: pieces cs := by
  rw [pieces]
  intro d ds first
  exact absurd first h

theorem flatten_pieces (cs : Text) : (pieces cs).flatten = cs := by
  fun_induction pieces cs with
  | case1 c cs ih => rw [List.flatten_cons, ih]; rfl
  | case2 c cs _ ih => rw [List.flatten_cons, ih]; rfl
  | case3 => rfl

/-- A piece is a character, or one with a backslash in front of it. -/
theorem exists_of_mem_pieces (h : p ∈ pieces cs) : ∃ c, p = [c] ∨ p = ['\\', c] := by
  fun_induction pieces cs with
  | case1 c cs ih => exact (List.mem_cons.1 h).elim (fun same => ⟨c, .inr same⟩) ih
  | case2 c cs _ ih => exact (List.mem_cons.1 h).elim (fun same => ⟨c, .inl same⟩) ih
  | case3 => cases h

theorem quotedPiece_escape (c : Char) : quotedPiece ['\\', c] = ['\\', c] := by
  simp [quotedPiece]

theorem quotedPiece_single (feed : c ≠ '\n') (ret : c ≠ '\r') (quote : c ≠ '"') :
    quotedPiece [c] = [c] := by
  simp only [quotedPiece, List.cons.injEq, and_true]
  rw [if_neg feed, if_neg ret, if_neg quote]

theorem pieces_escapeQuoted (cs : Text) :
    pieces (escapeQuoted cs) = (pieces cs).map quotedPiece := by
  fun_induction escapeQuoted cs with
  | case1 c cs ih => rw [pieces, pieces, List.map_cons, quotedPiece_escape, ih]
  | case2 cs ih => rw [pieces, pieces_cons (by decide), List.map_cons, ih]; rfl
  | case3 cs ih => rw [pieces, pieces_cons (by decide), List.map_cons, ih]; rfl
  | case4 cs ih => rw [pieces, pieces_cons (by decide), List.map_cons, ih]; rfl
  | case5 c cs escape feed ret quote ih =>
    by_cases slash : c = '\\'
    · cases cs with
      | nil => rw [slash]; rfl
      | cons d cs => exact absurd rfl (escape d cs slash)
    · rw [pieces_cons slash, pieces_cons slash, List.map_cons, quotedPiece_single feed ret quote, ih]
  | case6 => rfl

/-- A line end is left just where a backslash stands in front of it. -/
theorem mem_escapeQuoted_iff (h : c = '\n' ∨ c = '\r') :
    c ∈ escapeQuoted cs ↔ ['\\', c] ∈ pieces cs := by
  have written : c ∈ escapeQuoted cs ↔ ∃ p ∈ pieces cs, c ∈ quotedPiece p := by
    rw [← flatten_pieces (escapeQuoted cs), pieces_escapeQuoted, ← List.flatMap_def,
      List.mem_flatMap]
  have single (d : Char) : c ∉ quotedPiece [d] := by
    intro mem
    unfold quotedPiece at mem
    rcases h with rfl | rfl
    · grind
    · grind
  have slash : c ≠ '\\' := by
    rintro rfl
    exact absurd h (by decide)
  rw [written]
  constructor
  · rintro ⟨p, hp, mem⟩
    obtain ⟨d, rfl | rfl⟩ := exists_of_mem_pieces hp
    · exact absurd mem (single d)
    · rw [quotedPiece_escape] at mem
      have same : c = d := by simpa [slash] using mem
      rwa [same]
  · intro hp
    exact ⟨_, hp, by simp [quotedPiece_escape]⟩

/-! ### Text blocks -/

/-- No backslash is left alone. -/
def Paired (cs : Text) : Prop := ['\\'] ∉ pieces cs

theorem paired_escape : Paired ('\\' :: c :: cs) ↔ Paired cs := by
  simp [Paired, pieces]

theorem paired_cons (h : c ≠ '\\') : Paired (c :: cs) ↔ Paired cs := by
  rw [Paired, pieces_cons h]
  simp [Paired, Ne.symm h]

theorem exists_body_of_textBlock (h : Lexer.textBlock cs = some n) :
    ∃ body, cs.take n = body ++ threeQuotes ∧ Paired body := by
  fun_induction Lexer.textBlock cs generalizing n with
  | case1 cs =>
    obtain rfl := Option.some.inj h
    exact ⟨[], rfl, by simp [Paired, pieces]⟩
  | case2 c cs ih =>
    obtain ⟨m, hm, rfl⟩ := Option.map_eq_some_iff.1 h
    obtain ⟨body, whole, paired⟩ := ih hm
    refine ⟨'\\' :: c :: body, ?_, paired_escape.2 paired⟩
    rw [show 2 + m = m + 1 + 1 by omega, List.take_succ_cons, List.take_succ_cons, whole]
    rfl
  | case3 c cs _ escape ih =>
    obtain ⟨m, hm, rfl⟩ := Option.map_eq_some_iff.1 h
    obtain ⟨body, whole, paired⟩ := ih hm
    have slash : c ≠ '\\' := by
      intro slash
      cases cs with
      | nil => cases hm
      | cons d cs => exact escape d cs slash rfl
    refine ⟨c :: body, ?_, (paired_cons slash).2 paired⟩
    rw [show 1 + m = m + 1 by omega, List.take_succ_cons, whole]
    rfl
  | case4 => cases h

theorem quoted_escape (h : quoted '"' cs = (true, n)) :
    quoted '"' ('\\' :: c :: cs) = (true, n + 2) := by
  rw [quoted, h, Nat.add_comm n 2]
  rfl

theorem quoted_cons (slash : c ≠ '\\') (feed : c ≠ '\n') (ret : c ≠ '\r') (quote : c ≠ '"')
    (h : quoted '"' cs = (true, n)) : quoted '"' (c :: cs) = (true, n + 1) := by
  rw [quoted, if_neg (by simp [feed, ret]), if_neg quote, h, Nat.add_comm n 1]
  · rfl
  · intro d ds first
    exact absurd first slash

/-- Escaped content ends at the quote behind it. -/
theorem quoted_escapeQuoted (h : Paired cs) (rest : Text) :
    quoted '"' (escapeQuoted cs ++ '"' :: rest) = (true, (escapeQuoted cs).length + 1) := by
  fun_induction escapeQuoted cs with
  | case1 c cs ih => exact quoted_escape (ih (paired_escape.1 h))
  | case2 cs ih => exact quoted_escape (ih ((paired_cons (by decide)).1 h))
  | case3 cs ih => exact quoted_escape (ih ((paired_cons (by decide)).1 h))
  | case4 cs ih => exact quoted_escape (ih ((paired_cons (by decide)).1 h))
  | case5 c cs escape feed ret quote ih =>
    have slash : c ≠ '\\' := by
      rintro rfl
      cases cs with
      | nil => exact h (.head _)
      | cons d cs => exact escape d cs rfl rfl
    exact quoted_cons slash feed ret quote (ih ((paired_cons slash).1 h))
  | case6 => rfl

/-- Escaped content begins with no quote. -/
theorem head?_escapeQuoted (cs : Text) : (escapeQuoted cs).head? ≠ some '"' := by
  fun_cases escapeQuoted cs with
  | case5 c cs _ _ _ quote => exact fun first => quote (Option.some.inj first)
  | _ => simp

theorem isLexeme_escapeQuoted (h : Paired cs) :
    IsLexeme ('"' :: (escapeQuoted cs ++ ['"'])) .stringLiteral [] := by
  have two : (escapeQuoted cs ++ ['"'] ++ []).take 2 ≠ ['"', '"'] := by
    have first := head?_escapeQuoted cs
    cases content : escapeQuoted cs with
    | nil => decide
    | cons d ds =>
      rw [content] at first
      intro same
      rw [List.append_nil, List.cons_append, List.take_succ_cons] at same
      exact first (congrArg some (List.cons.inj same).1)
  have closed := quoted_escapeQuoted h []
  refine isLexeme_of_shape (.string rfl two ?_) (by decide) (by decide)
  rw [List.append_nil, List.length_append]
  exact closed

theorem textBlockBody_eq (body : Text) :
    textBlockBody (threeQuotes ++ body ++ threeQuotes) = body := by
  have front : after? threeQuotes (threeQuotes ++ body ++ threeQuotes) =
      some (body ++ threeQuotes) := by
    rw [List.append_assoc]
    exact after?_eq_some.2 rfl
  have back : after? threeQuotes (body ++ threeQuotes).reverse = some body.reverse := by
    rw [List.reverse_append]
    exact after?_eq_some.2 rfl
  simp only [textBlockBody, front, back, List.reverse_reverse]

/-- The quotes of a text block, and what stands between them. -/
theorem exists_body_of_isLexeme {w : Text} (h : IsLexeme w .textBlock rest) :
    ∃ body, w = threeQuotes ++ body ++ threeQuotes ∧ Paired body := by
  obtain ⟨c, tail, rfl, shape⟩ := h.shape
  generalize hk : Kind.textBlock = k at shape
  generalize hn : tail.length = n at shape
  cases shape with
  | @block m hc hq hblock =>
    obtain ⟨body, taken, paired⟩ := exists_body_of_textBlock hblock
    have whole : tail = ['"', '"'] ++ (body ++ threeQuotes) := by
      rw [← taken, ← hq, ← List.take_add, ← hn, List.take_left]
    exact ⟨body, by rw [hc, whole]; rfl, paired⟩
  | word => rcases wordKind_cases _ with hw | hw <;> rw [hw] at hk <;> cases hk
  | number => rcases number_kind (c :: (tail ++ rest)) with hw | hw <;> rw [hw] at hk <;> cases hk
  | _ => cases hk

/-- A text block of a sketch becomes one string literal, which has the pieces of the block with line
ends and quotes escaped. A line end is left in it just where the block has one behind a backslash. -/
theorem textBlock_of_tokenize {source : Text} {ts : Tokens} {t : Token}
    (h : tokenize source = .ok ts) (ht : t ∈ ts.body) (kind : t.kind = .textBlock) :
    ∃ body content, t.text.toList = threeQuotes ++ body ++ threeQuotes ∧
      textBlock t.text.toList = '"' :: (content ++ ['"']) ∧
      pieces content = (pieces body).map quotedPiece ∧
      (∃ us, tokenize (textBlock t.text.toList) = .ok us ∧
        us.body.map outline = [⟨.stringLiteral, String.ofList (textBlock t.text.toList), 0,
          (textBlock t.text.toList).size⟩]) ∧
      ∀ c, c = '\n' ∨ c = '\r' →
        (c ∈ textBlock t.text.toList ↔ ['\\', c] ∈ pieces body) := by
  obtain ⟨rest, lexeme⟩ := exists_lexeme_of_tokenize h t ht
  rw [kind] at lexeme
  obtain ⟨body, text, paired⟩ := exists_body_of_isLexeme lexeme
  have literal : textBlock t.text.toList = '"' :: (escapeQuoted body ++ ['"']) := by
    rw [text, textBlock, textBlockBody_eq]
    rfl
  refine ⟨body, escapeQuoted body, text, literal, pieces_escapeQuoted body, ?_, fun c hc => ?_⟩
  · have nothing : Reads (0 + size [] + size ('"' :: (escapeQuoted body ++ ['"']))) [] [] :=
      .stop List.drop_nil
    have reads := Reads.next closed_nil (isLexeme_escapeQuoted paired) nothing
    rw [literal]
    simpa using tokenize_iff_reads.1 reads
  · have other : c ≠ '"' := by
      rintro rfl
      exact absurd hc (by decide)
    rw [literal, ← mem_escapeQuoted_iff hc]
    simp [other]

/-- A text block that goes on behind a backslash at the end of a line becomes a literal on two lines. -/
theorem textBlock_of_continued_line :
    let source : Text := "\"\"\"a\\\n\"\"\"".toList
    ∃ ts t, tokenize source = .ok ts ∧ t ∈ ts.body ∧ t.kind = .textBlock ∧
      textBlock t.text.toList = "\"a\\\n\"".toList := by
  intro source
  have read : (tokenize source).toOption.any (fun ts : Tokens =>
      ts.body.any fun t => t.kind = .textBlock && textBlock t.text.toList = "\"a\\\n\"".toList) =
        true := by
    decide +kernel
  cases h : tokenize source with
  | error u =>
    rw [h] at read
    cases read
  | ok ts =>
    rw [h] at read
    obtain ⟨t, ht, found⟩ := List.any_eq_true.1 read
    simp only [Bool.and_eq_true, decide_eq_true_eq] at found
    exact ⟨ts, t, rfl, ht, found.1, found.2⟩

end SketchPrep.Literal
