import SketchPrep.Proofs.Token.Lexeme

/-!
What the kind of a token tells about its text. Main statement: `spelled_of_tokenize`.
-/

namespace SketchPrep.Token

open Lexer Text

/-- A keyword is one of the list, and what is no word of Java is marked by its first character. -/
structure Spelled (t : Token) : Prop where
  keyword : t.kind = .keyword → t.text ∈ keywords
  hexColor : t.kind = .hexColor → t.text.toList.head? = some '#'
  textBlock : t.kind = .textBlock → t.text.toList.head? = some '"'

theorem Lexer.Shape.spelled {c : Char} {cs : Text} {n : Nat} {t : Token}
    (h : Shape c cs t.kind n) (ht : t.text = String.ofList (c :: cs.take n)) : t.Spelled := by
  have first : t.text.toList.head? = some c := by rw [ht, String.toList_ofList]; rfl
  generalize hk : t.kind = k at h
  cases h with
  | word =>
    refine ⟨fun hword => ?_, fun hword => ?_, fun hword => ?_⟩
    · rw [hk, wordKind] at hword
      split at hword
      · rename_i listed
        rw [ht]
        exact List.contains_iff_mem.1 listed
      · cases hword
    · rcases wordKind_cases (c :: cs.take (run continuesName cs)) with kind | kind <;>
        simp [hk, kind] at hword
    · rcases wordKind_cases (c :: cs.take (run continuesName cs)) with kind | kind <;>
        simp [hk, kind] at hword
  | number =>
    rcases number_kind (c :: cs) with kind | kind <;>
      exact ⟨by simp [hk, kind], by simp [hk, kind], by simp [hk, kind]⟩
  | color hc => exact ⟨by simp [hk], fun _ => hc ▸ first, by simp [hk]⟩
  | block hc => exact ⟨by simp [hk], by simp [hk], fun _ => hc ▸ first⟩
  | _ => exact ⟨by simp [hk], by simp [hk], by simp [hk]⟩

theorem Lexer.Lexed.spelled {p : Position} {cs : Text} {body : List Token} {final : Token}
    (h : Lexed p cs body final) : ∀ t ∈ body, t.Spelled := by
  induction h with
  | stop => simp
  | next _ _ hlex htail _ ih =>
    refine List.forall_mem_cons.2 ⟨?_, ih⟩
    exact (shape_of_lexeme hlex).spelled (by rw [htail])

theorem spelled_of_tokenize {source : Text} {ts : Tokens} (h : tokenize source = .ok ts) :
    ∀ t ∈ ts.body, t.Spelled := (lexed_of_tokens h).spelled

end SketchPrep.Token
