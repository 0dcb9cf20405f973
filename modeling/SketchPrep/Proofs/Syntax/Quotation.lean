import SketchPrep.Proofs.Syntax.Agreement
import SketchPrep.Proofs.Token.Layout

/-!
What the message of a syntax error quotes. Main statement: `isQuotable_of_parse`, it is always a
part of the source.
-/

namespace SketchPrep

open Text Token

namespace Syntax

/-- The tokens ahead are tokens of the source, and reading the present declaration or statement
began between two characters. -/
structure Stream.StandsIn (source : Text) (s : Stream) : Prop where
  ahead : ∀ t ∈ s.ahead, LiesIn source t
  final : s.final.span = ⟨source.size, source.size⟩
  decisionStart : IsBoundary source s.decisionStart

variable {source : Text} {s : Stream}

theorem Stream.StandsIn.current (h : s.StandsIn source) :
    IsBoundary source s.lo ∧ IsBoundary source s.current.stop := by
  unfold Stream.lo Stream.current Stream.nth
  cases hs : s.ahead with
  | nil =>
    obtain ⟨hlo, hhi⟩ := Span.mk.inj h.final
    simp only [List.getD_nil, hlo, hhi]
    exact ⟨isBoundary_size source, isBoundary_size source⟩
  | cons t ts =>
    have lies := h.ahead t (by simp [hs])
    exact ⟨lies.isBoundary_start, lies.isBoundary_stop⟩

end Syntax

/-- The part of the source that the error quotes can be cut out of it. -/
def SyntaxError.IsQuotable (source : Text) (e : SyntaxError) : Prop :=
  ∀ read, e.cause = .noViable read → (source.slice? read.lo read.hi).isSome

namespace Syntax

open Reader

variable {source : Text}

theorem isQuotable_unexpected (s : Stream) (es : List Expectation) :
    (s.unexpected es).IsQuotable source := by
  intro read h
  simp only [Stream.unexpected] at h
  split at h
  · cases h
  · split at h
    · split at h <;> cases h
    · cases h

theorem isQuotable_noViable {s : Stream} (h : s.StandsIn source) :
    s.noViable.IsQuotable source := by
  intro read hread
  obtain rfl := SyntaxError.Cause.noViable.inj hread
  refine slice?_isSome h.decisionStart ?_ (Nat.le_max_right ..)
  rcases Nat.le_total s.current.stop s.decisionStart with le | le
  · simpa only [Nat.max_eq_right le] using h.decisionStart
  · simpa only [Nat.max_eq_left le] using h.current.2

theorem invariant_standsIn (source : Text) :
    Invariant (Stream.StandsIn source) (SyntaxError.IsQuotable source) where
  advance s h := by
    refine ⟨fun t ht => ?_, ?_, ?_⟩
    · rw [Stream.advance_ahead] at ht
      exact h.ahead t (List.mem_of_mem_tail ht)
    · unfold Stream.advance
      split <;> exact h.final
    · unfold Stream.advance
      split <;> exact h.decisionStart
  begin s h := ⟨h.ahead, h.final, h.current.1⟩
  unexpected s es _ := isQuotable_unexpected s es
  noViable s h := isQuotable_noViable h

end Syntax

/-- The message of a syntax error never cuts a character. -/
theorem Sketch.isQuotable_of_parse {source : Text} {e : SyntaxError}
    (h : Sketch.parse source = .error e) : e.IsQuotable source := by
  refine error_of_parse (Syntax.invariant_standsIn source) ?_ ?_ h
  · intro u _ read hread
    cases hread
  · intro ts hts
    exact ⟨(laidOut_of_tokenize hts).lies, span_final_of_tokenize hts, isBoundary_zero source⟩

end SketchPrep
