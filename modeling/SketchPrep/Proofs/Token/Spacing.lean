import SketchPrep.Proofs.Token.Append
import SketchPrep.Proofs.Token.Partition

/-!
Texts written lexeme by lexeme. A lexeme stays one in front of any blank, whatever followed it where
it was read first: what a number, a color or a sign looks at beyond its end does not change it. Main
statement: `tokenize_spaced`, tokens with single blanks between them are read as they are.
-/

namespace SketchPrep.Token

open Text

namespace Lexer

theorem IsLexeme.before_stop {w x rest : Text} {k : Kind} (h : IsLexeme w k rest)
    (hx : StartsStop x) : IsLexeme w k x := by
  have no_name : ∀ d ∈ x.head?, continuesName d = false := fun d hd =>
    continuesName_of_isStop (hx d hd)
  have no_hex : ∀ d ∈ x.head?, isHexDigit d = false := fun d hd => isHexDigit_of_isStop (hx d hd)
  have other (c : Char) (hc : isStop c = false) : ∀ d ∈ x.head?, d ≠ c := fun d hd =>
    ne_of_isStop (hx d hd) hc
  cases k with
  | identifier => exact h.word_congr (.inl rfl) no_name
  | keyword => exact h.word_congr (.inr rfl) no_name
  | intLiteral =>
    obtain ⟨isNumber, c, tail, rfl, hc⟩ := h.isNumber (.inl rfl)
    exact isLexeme_number hc ((hx.number_append (List.cons_ne_nil c tail)).trans isNumber)
  | floatLiteral =>
    obtain ⟨isNumber, c, tail, rfl, hc⟩ := h.isNumber (.inr rfl)
    exact isLexeme_number hc ((hx.number_append (List.cons_ne_nil c tail)).trans isNumber)
  | hexColor =>
    obtain ⟨tail, rfl, hlen, digits⟩ := h.exists_color
    exact isLexeme_color hlen digits no_hex
  | charLiteral => exact h.char_congr x
  | stringLiteral =>
    refine h.string_congr fun quote => ?_
    exact other '"' (by decide) '"' quote rfl
  | textBlock => exact h.block_congr x
  | punctuation =>
    refine h.sign_congr (fun d hd => .inl fun inside => ?_) (fun _ points => ?_)
      (fun _ d hd => (hx.not_digit d hd).1)
      fun _ d hd => ⟨other '/' (by decide) d hd, other '*' (by decide) d hd⟩
    · have outside : signTails.contains d = false := eq_false_of_isStop (hx d hd) (by decide)
      rw [List.contains_iff_mem.2 inside] at outside
      cases outside
    · cases x with
      | nil => cases points
      | cons d x =>
        rw [List.take_succ_cons, List.cons.injEq] at points
        exact absurd points.1 (other '.' (by decide) d rfl)
  | endOfInput =>
    obtain ⟨c, tail, -, shape⟩ := h.shape
    exact absurd rfl shape.ne_endOfInput

/-! ### Lexemes and blanks -/

/-- The text is these lexemes, with blanks anywhere between them. -/
inductive WrittenAs : Text → List (Kind × String) → Prop
  | nil : WrittenAs [] []
  | blank {c : Char} {cs : Text} {ls : List (Kind × String)} (hc : isBlank c)
    (h : WrittenAs cs ls) : WrittenAs (c :: cs) ls
  | lexeme {w rest : Text} {k : Kind} {ls : List (Kind × String)} (hw : IsLexeme w k rest)
    (h : WrittenAs rest ls) : WrittenAs (w ++ rest) ((k, String.ofList w) :: ls)

variable {cs : Text} {ls : List (Kind × String)}

theorem WrittenAs.reads (h : WrittenAs cs ls) (pos : Nat) :
    ∃ os, Reads pos cs os ∧ os.map Outline.lexeme = ls := by
  induction h generalizing pos with
  | nil => exact ⟨[], .stop List.drop_nil, rfl⟩
  | @blank c cs ls hc _ ih =>
    obtain ⟨os, reads, same⟩ := ih (pos + Text.size [c])
    have before := reads.prepend (closed_blank hc cs)
    exact ⟨os, before, same⟩
  | @lexeme w rest k ls hw _ ih =>
    obtain ⟨os, reads, same⟩ := ih (pos + Text.size [] + w.size)
    exact ⟨_, .next closed_nil hw reads, by rw [List.map_cons, same]; rfl⟩

theorem WrittenAs.tokenize (h : WrittenAs cs ls) :
    ∃ ts, tokenize cs = .ok ts ∧ ts.lexemes = ls := by
  obtain ⟨os, reads, same⟩ := h.reads 0
  obtain ⟨ts, hts, outlines⟩ := tokenize_iff_reads.1 reads
  exact ⟨ts, hts, by rw [ts.lexemes_eq, outlines, same]⟩

/-- Each lexeme may have stood in front of another text before. -/
theorem writtenAs_intercalate (h : ∀ l ∈ ls, ∃ rest, IsLexeme l.2.toList l.1 rest) :
    WrittenAs ([' '].intercalate (ls.map fun l => l.2.toList)) ls := by
  induction ls with
  | nil => exact .nil
  | cons l ls ih =>
    obtain ⟨⟨rest, lexeme⟩, others⟩ := List.forall_mem_cons.1 h
    have behind := ih others
    cases ls with
    | nil =>
      have last := WrittenAs.lexeme (lexeme.before_stop (x := []) (by simp [StartsStop])) .nil
      simpa using last
    | cons l' ls =>
      have blank : isBlank ' ' := by decide
      have starts : StartsStop (' ' :: [' '].intercalate ((l' :: ls).map fun l => l.2.toList)) :=
        fun c hc => by rwa [← Option.some.inj hc]
      have first := WrittenAs.lexeme (lexeme.before_stop starts) (.blank blank behind)
      rw [String.ofList_toList] at first
      simpa using first

end Lexer

/-- Tokens do not depend on what stands around them: with single blanks between them they are read
again, each with its kind and its text. -/
theorem tokenize_spaced {source : Text} {ts : Tokens} (h : tokenize source = .ok ts) :
    ∃ us, tokenize (" ".intercalate (ts.body.map Token.text)).toList = .ok us ∧
      us.lexemes = ts.lexemes ∧ us.final.kind = ts.final.kind ∧ us.final.text = ts.final.text := by
  have lexemes : ∀ l ∈ ts.lexemes, ∃ rest, Lexer.IsLexeme l.2.toList l.1 rest := by
    intro l hl
    obtain ⟨t, ht, rfl⟩ := List.mem_map.1 hl
    exact Lexer.exists_lexeme_of_tokenize h t ht
  obtain ⟨us, hus, same⟩ := (Lexer.writtenAs_intercalate lexemes).tokenize
  have text : (" ".intercalate (ts.body.map Token.text)).toList =
      [' '].intercalate (ts.lexemes.map fun l => l.2.toList) := by
    rw [String.toList_intercalate, Tokens.lexemes, List.map_map, List.map_map]
    rfl
  have ends {t : Token} (ht : t.isEnd) : t.kind = .endOfInput := by simpa [isEnd] using ht
  refine ⟨us, by rwa [text], same, ?_, ?_⟩
  · rw [ends us.final_isEnd, ends ts.final_isEnd]
  · rw [(Lexer.lexed_of_tokens hus).text_final, (Lexer.lexed_of_tokens h).text_final]

/-- A point that is no fraction, a color with a digit too many and an exponent without digits: what
comes behind each of them decided how it was read. -/
theorem tokenize_spaced_of_touching :
    ∃ ts, tokenize "1.e5#FF00000x1p>>=\"\"".toList = .ok ts ∧
      ts.lexemes.map Prod.snd = ["1", ".", "e5", "#FF0000", "0x1", "p", ">", ">", "=", "\"\""] ∧
      ∃ us, tokenize (" ".intercalate (ts.body.map Token.text)).toList = .ok us ∧
        us.lexemes = ts.lexemes ∧ us.final.kind = ts.final.kind ∧
          us.final.text = ts.final.text := by
  have read : (tokenize "1.e5#FF00000x1p>>=\"\"".toList).toOption.any (fun ts : Tokens =>
      ts.lexemes.map Prod.snd = ["1", ".", "e5", "#FF0000", "0x1", "p", ">", ">", "=", "\"\""]) =
        true := by
    decide +kernel
  cases h : tokenize "1.e5#FF00000x1p>>=\"\"".toList with
  | error u =>
    rw [h] at read
    cases read
  | ok ts =>
    rw [h] at read
    exact ⟨ts, rfl, of_decide_eq_true read, tokenize_spaced h⟩

end SketchPrep.Token
