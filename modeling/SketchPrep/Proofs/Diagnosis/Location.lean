import SketchPrep.Diagnosis.Issue
import SketchPrep.Proofs.Diagnosis.Backward
import SketchPrep.Proofs.Token.Ending

/-!
The end of the last token before a line. Main statement: `locate_prior`, a hint that belongs to that
token is shown there if the blanks and comments behind the token are plain and nothing on its line is
mistaken for a comment.
-/

namespace SketchPrep

open Text Token

/-! ### Lines -/

/-- What stands on the last line of a text. -/
def Text.lastLine (cs : Text) : Text := (cs.reverse.takeWhile (· ≠ '\n')).reverse

variable {source cs : Text}

theorem Text.not_mem_lastLine (cs : Text) : '\n' ∉ lastLine cs := by
  rw [lastLine, List.mem_reverse]
  intro mem
  have passed := List.all_eq_true.1 (List.all_takeWhile ..) _ mem
  simp at passed

theorem Text.exists_front (cs : Text) :
    ∃ front, cs = front ++ lastLine cs ∧ ∀ c ∈ front.getLast?, c = '\n' := by
  refine ⟨(cs.reverse.dropWhile (· ≠ '\n')).reverse, ?_, fun c hc => ?_⟩
  · rw [lastLine, ← List.reverse_append, List.takeWhile_append_dropWhile, List.reverse_reverse]
  · rw [List.getLast?_reverse] at hc
    have stopped := List.head?_dropWhile_not (· ≠ '\n') cs.reverse
    rw [Option.mem_def.1 hc] at stopped
    simpa using stopped

theorem Text.lastLine_concat {d : Char} (hd : d ≠ '\n') (cs : Text) :
    lastLine (cs ++ [d]) = lastLine cs ++ [d] := by
  simp [lastLine, hd]

namespace Issue

theorem count_takeLines {n : Nat} (h : n ≤ cs.count '\n') : (takeLines n cs).count '\n' = n := by
  induction cs generalizing n with
  | nil =>
    obtain rfl : n = 0 := Nat.le_zero.1 h
    rfl
  | cons c cs ih =>
    cases n with
    | zero => rfl
    | succ n =>
      rw [takeLines]
      by_cases feed : c = '\n'
      · subst feed
        rw [List.count_cons_self] at h
        rw [if_pos rfl, List.count_cons_self, ih (Nat.le_of_succ_le_succ h)]
      · rw [List.count_cons_of_ne feed] at h
        rw [if_neg feed, List.count_cons_of_ne feed, ih h]

/-- If `g` is left out, the place is that of the end of what stands in front. -/
theorem locatePrior_eq {line : Nat} {before g : Text} (first : 1 ≤ line)
    (last : line ≤ source.count '\n' + 1) (cut : takeLines (line - 1) source = before ++ g)
    (position : (LastToken.start.scan (before ++ g).reverse).position.getD 0 = g.length) :
    locatePrior line source = before.lineColumn := by
  have feeds : (takeLines (line - 1) source).count '\n' = line - 1 := count_takeLines (by omega)
  rw [cut, List.count_append] at feeds
  have behind : (before ++ g).reverse.take g.length = g.reverse := by
    rw [List.reverse_append, ← List.length_reverse, List.take_left]
  have kept : (before ++ g).reverse.drop g.length = before.reverse := by
    rw [List.reverse_append, ← List.length_reverse, List.drop_left]
  simp only [locatePrior, cut, position, behind, kept, List.count_reverse,
    Text.lineColumn, Prod.mk.injEq, and_true]
  omega

/-- A token ends its line as far as it goes. -/
theorem shown_lastLine {ts : Tokens} {t : Token} {before behind : Text}
    (tokens : tokenize source = .ok ts) (ht : t ∈ ts.body) (cut : source = before ++ behind)
    (stop : before.size = t.stop) (slashes : ¬['/', '/'] <:+: before.lastLine)
    (star : ¬['*', '/'] <:+ before.lastLine) : LastToken.Shown before.lastLine := by
  obtain ⟨rest, lexeme⟩ := Lexer.exists_lexeme_of_tokenize tokens t ht
  obtain ⟨front, word, later, whole, -, text, -, stop'⟩ :=
    (laidOut_of_tokenize tokens).lies t ht
  rw [text, String.toList_ofList] at lexeme
  obtain ⟨u, d, rfl, hd⟩ := lexeme.exists_last
  have same : before = front ++ (u ++ [d]) := by
    refine (append_inj_of_size (cut.symm.trans whole) ?_).1
    rw [stop, stop', ← size_append]
  have feed : d ≠ '\n' := by
    rintro rfl
    cases hd
  have ends : before.lastLine = (front ++ u).lastLine ++ [d] := by
    rw [same, ← List.append_assoc, Text.lastLine_concat feed]
  exact ⟨⟨_, d, ends, hd⟩, Text.not_mem_lastLine before, slashes, star⟩

/-- Between the token and the line stand blanks and comments only, none of them with a mark of
another comment in it, and there is none in front of the end of the token on its line. -/
structure Precedes (source : Text) (line : Nat) (before : Text) : Prop where
  cut : ∃ g, takeLines (line - 1) source = before ++ g ∧ LastToken.IsPlain g
  slashes : ¬['/', '/'] <:+: before.lastLine
  star : ¬['*', '/'] <:+ before.lastLine

theorem exists_takeLines (n : Nat) (cs : Text) : ∃ behind, cs = takeLines n cs ++ behind := by
  induction cs generalizing n with
  | nil => cases n <;> exact ⟨[], rfl⟩
  | cons c cs ih =>
    cases n with
    | zero => exact ⟨c :: cs, rfl⟩
    | succ n =>
      obtain ⟨behind, whole⟩ := ih (if c = '\n' then n else n + 1)
      exact ⟨behind, by rw [takeLines, List.cons_append, ← whole]⟩

/-- A hint for the token before a line is shown at the end of that token. -/
theorem locate_prior {ts : Tokens} {t : Token} {line : Nat} {before : Text}
    (tokens : tokenize source = .ok ts) (ht : t ∈ ts.body) (first : 1 ≤ line)
    (last : line ≤ source.count '\n' + 1) (stop : before.size = t.stop)
    (precedes : Precedes source line before) (column : Nat) :
    locate true line column (some source) = before.lineColumn := by
  obtain ⟨⟨g, cut, plain⟩, slashes, star⟩ := precedes
  obtain ⟨behind, whole⟩ := exists_takeLines (line - 1) source
  rw [cut, List.append_assoc] at whole
  obtain ⟨front, same, feed⟩ := before.exists_front
  have position := LastToken.position_of_plain feed
    (shown_lastLine tokens ht whole stop slashes star) plain
  rw [← same] at position
  have asked : (true && decide (line ≠ 0)) = true := by simp; omega
  rw [locate, if_pos asked]
  exact locatePrior_eq first last cut (by rw [position, Option.getD_some])

example : locate true 4 0 (some "int x = 5 // five\n/* why? **/\n\nint y = 6;".toList) = (1, 9) := by
  decide +kernel

/-- The third slash in a row is taken for a token, and so is what stands in front of two slashes in
a string. -/
theorem locate_prior_ne :
    locate true 3 0 (some "int x = 5\n/// note\nint y = 6;".toList) = (2, 1) ∧
      locate true 2 0 (some "String u = \"http://x\"\nint y = 6;".toList) = (1, 17) := by
  decide +kernel

end Issue

end SketchPrep
