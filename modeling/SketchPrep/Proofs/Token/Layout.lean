import Mathlib.Data.List.Pairwise
import SketchPrep.Proofs.Text.Boundary
import SketchPrep.Token.Lexer

/-!
How the tokens of a text lie in it. `Lexed` is the reader of tokens as a relation: gap and lexeme by
turns, up to a gap that the text ends with. Main statement: `laidOut_of_tokenize`, each token is a
part of the text, and the tokens follow each other without overlap.
-/

namespace SketchPrep.Token

open Lexer Text

/-- The tokens `body` and `final` are read from a text, the first character of which stands at the
position. -/
inductive Lexer.Lexed : Position → Text → List Token → Token → Prop
  | stop {p : Position} {cs : Text} (hgap : cs.drop (gap cs) = []) :
    Lexed p cs [] ⟨.endOfInput, "", p.afterAll cs, (p.afterAll cs).offset, cs.contains '\n'⟩
  | next {p : Position} {cs blank tail rest : Text} {c : Char} {n : Nat} {kind : Kind}
      {body : List Token} {final : Token}
      (hcs : cs = blank ++ c :: (tail ++ rest)) (hblank : cs.take (gap cs) = blank)
      (hlex : lexeme c (tail ++ rest) = .ok (kind, n)) (htail : (tail ++ rest).take n = tail)
      (next : Lexed ((p.afterAll blank).afterAll (c :: tail)) rest body final) :
    Lexed p cs (⟨kind, String.ofList (c :: tail), p.afterAll blank,
      ((p.afterAll blank).afterAll (c :: tail)).offset, blank.contains '\n'⟩ :: body) final

theorem Lexer.lexed_of_tokens {p : Position} {cs : Text} {ts : Tokens} (h : tokens p cs = .ok ts) :
    Lexed p cs ts.body ts.final := by
  fun_induction tokens p cs generalizing ts with
  | case1 p cs blank start broken =>
    rename_i hgap
    have whole : cs.take (gap cs) = cs := by
      have := List.take_append_drop (gap cs) cs
      rwa [hgap, List.append_nil] at this
    obtain rfl := Except.ok.inj h
    simpa only [start, broken, blank, whole] using Lexed.stop hgap
  | case2 => cases h
  | case3 => cases h
  | case4 p cs blank start broken c rest hgap kind n hlex word next ts' ht =>
    rename_i ih
    obtain rfl := Except.ok.inj h
    have hcs : cs = blank ++ c :: (rest.take n ++ rest.drop n) := by
      rw [List.take_append_drop, ← hgap, List.take_append_drop]
    exact .next hcs rfl (by rwa [List.take_append_drop]) (by rw [List.take_append_drop]) (ih ht)

/-- A token is a part of the source that is not empty. -/
def LiesIn (source : Text) (t : Token) : Prop :=
  ∃ before word behind, source = before ++ word ++ behind ∧ word ≠ [] ∧
    t.text = String.ofList word ∧ t.start.offset = before.size ∧ t.stop = before.size + word.size

/-- Each token ends before the next one begins. -/
structure LaidOut (source : Text) (ts : List Token) : Prop where
  lies : ∀ t ∈ ts, LiesIn source t
  ordered : ts.Pairwise fun a b => a.stop ≤ b.start.offset

theorem LiesIn.lt {source : Text} {t : Token} (h : LiesIn source t) : t.start.offset < t.stop := by
  obtain ⟨before, word, behind, -, hne, -, hlo, hhi⟩ := h
  have : word.size ≠ 0 := by simpa [size_eq_zero_iff] using hne
  omega

theorem LiesIn.isBoundary_start {source : Text} {t : Token} (h : LiesIn source t) :
    IsBoundary source t.start.offset := by
  obtain ⟨before, word, behind, rfl, -, -, hlo, -⟩ := h
  exact isBoundary_iff.2 ⟨before, word ++ behind, by simp, hlo.symm⟩

theorem LiesIn.isBoundary_stop {source : Text} {t : Token} (h : LiesIn source t) :
    IsBoundary source t.stop := by
  obtain ⟨before, word, behind, rfl, -, -, -, hhi⟩ := h
  exact isBoundary_iff.2 ⟨before ++ word, behind, rfl, by simp [hhi]⟩

/-- Tokens that begin at one place are the same. -/
theorem LaidOut.eq_of_start {source : Text} {ts : List Token} (laid : LaidOut source ts)
    {t t' : Token} (ht : t ∈ ts) (ht' : t' ∈ ts) (same : t.start.offset = t'.start.offset) :
    t = t' := by
  refine Classical.byContradiction fun differ => ?_
  let Aside (x y : Token) : Prop := x.stop ≤ y.start.offset ∨ y.stop ≤ x.start.offset
  have : Std.Symm Aside := ⟨fun _ _ => Or.symm⟩
  have aside : ts.Pairwise Aside := laid.ordered.imp .inl
  have lt := (laid.lies t ht).lt
  have lt' := (laid.lies t' ht').lt
  rcases aside.forall ht ht' differ with before | behind
  · omega
  · omega

theorem Lexer.Lexed.laidOut {p : Position} {before cs : Text} {body : List Token} {final : Token}
    (h : Lexed p cs body final) (hp : p.offset = before.size) :
    LaidOut (before ++ cs) body ∧ ∀ t ∈ body, before.size ≤ t.start.offset := by
  induction h generalizing before with
  | stop => exact ⟨⟨by simp, by simp⟩, by simp⟩
  | @next p cs blank tail rest c n kind body final hcs hblank hlex htail hnext ih =>
    subst hcs
    have hstart : (p.afterAll blank).offset = (before ++ blank).size := by
      rw [Position.afterAll_offset, hp, size_append]
    have hstop : ((p.afterAll blank).afterAll (c :: tail)).offset =
        (before ++ blank ++ c :: tail).size := by
      rw [Position.afterAll_offset, hstart, size_append (before ++ blank)]
    obtain ⟨laid, behind⟩ := ih hstop
    have same : before ++ blank ++ c :: tail ++ rest =
        before ++ (blank ++ c :: (tail ++ rest)) := by simp
    rw [same] at laid
    refine ⟨⟨?_, ?_⟩, ?_⟩
    · rw [List.forall_mem_cons]
      refine ⟨⟨before ++ blank, c :: tail, rest, by simp, by simp, rfl, hstart, ?_⟩, laid.lies⟩
      rw [hstop, size_append (before ++ blank)]
    · refine .cons (fun t ht => ?_) laid.ordered
      rw [hstop]
      exact behind t ht
    · rw [List.forall_mem_cons]
      refine ⟨by rw [hstart, size_append]; omega, fun t ht => ?_⟩
      have := behind t ht
      simp only [size_append] at this
      omega

theorem laidOut_of_tokenize {source : Text} {ts : Tokens} (h : tokenize source = .ok ts) :
    LaidOut source ts.body :=
  (@Lexed.laidOut _ [] _ _ _ (lexed_of_tokens h) rfl).1

theorem Lexer.Lexed.span_final {p : Position} {cs : Text} {body : List Token} {final : Token}
    (h : Lexed p cs body final) : final.span = ⟨p.offset + cs.size, p.offset + cs.size⟩ := by
  induction h with
  | stop => simp [span, Position.afterAll_offset]
  | next hcs _ _ _ _ ih =>
    subst hcs
    rw [ih]
    simp [Position.afterAll_offset, Nat.add_assoc]

/-- The end of input stands behind the last byte. -/
theorem span_final_of_tokenize {source : Text} {ts : Tokens} (h : tokenize source = .ok ts) :
    ts.final.span = ⟨source.size, source.size⟩ := by
  have := (lexed_of_tokens h).span_final
  simpa [Position.start] using this

end SketchPrep.Token
