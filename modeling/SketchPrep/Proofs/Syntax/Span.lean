import SketchPrep.Proofs.Syntax.Phrase
import SketchPrep.Proofs.Token.Layout

/-!
The span of a run of tokens. Main statements: `laidOut_append`, runs stand one behind the other;
`LaidOut.bounds`, the tokens of a run lie in its span.
-/

namespace SketchPrep.Token

variable {source : Text} {ts us : List Token}

theorem laidOut_append : LaidOut source (ts ++ us) ↔
    LaidOut source ts ∧ LaidOut source us ∧ ∀ t ∈ ts, ∀ u ∈ us, t.stop ≤ u.start.offset := by
  constructor
  · rintro ⟨lies, ordered⟩
    obtain ⟨hts, hus, cross⟩ := List.pairwise_append.1 ordered
    exact ⟨⟨fun t ht => lies t (by simp [ht]), hts⟩, ⟨fun t ht => lies t (by simp [ht]), hus⟩,
      cross⟩
  · rintro ⟨hts, hus, cross⟩
    exact ⟨fun t ht => (List.mem_append.1 ht).elim (hts.lies t) (hus.lies t),
      List.pairwise_append.2 ⟨hts.ordered, hus.ordered, cross⟩⟩

theorem LaidOut.sublist (h : LaidOut source ts) (hu : us.Sublist ts) : LaidOut source us :=
  ⟨fun t ht => h.lies t (hu.subset ht), h.ordered.sublist hu⟩

/-- The tokens lie in their span. -/
theorem LaidOut.bounds (h : LaidOut source ts) {a : Span} (ha : spanOf? ts = some a) :
    ∀ t ∈ ts, a.lo ≤ t.start.offset ∧ t.stop ≤ a.hi := by
  unfold spanOf? at ha
  split at ha
  · rename_i first last hfirst hlast
    obtain rfl := Option.some.inj ha
    intro t ht
    constructor
    · cases ts with
      | nil => simp at hfirst
      | cons x ts =>
        obtain rfl := Option.some.inj hfirst
        rcases List.mem_cons.1 ht with rfl | ht
        · exact Nat.le_refl _
        · have := List.rel_of_pairwise_cons h.ordered ht
          have := (h.lies x (.head _)).lt
          simp only [Span.upTo, Token.span]
          omega
    · obtain ⟨init, rfl⟩ := List.getLast?_eq_some_iff.1 hlast
      rcases List.mem_append.1 ht with ht | ht
      · have := (laidOut_append.1 h).2.2 t ht last (by simp)
        have := (h.lies last (by simp)).lt
        simp only [Span.upTo, Token.span]
        omega
      · rw [List.mem_singleton.1 ht]
        exact Nat.le_refl _
  · cases ha

theorem mem_of_spanOf? {a : Span} (ha : spanOf? ts = some a) :
    (∃ t ∈ ts, a.lo = t.start.offset) ∧ ∃ t ∈ ts, a.hi = t.stop := by
  unfold spanOf? at ha
  split at ha
  · rename_i first last hfirst hlast
    obtain rfl := Option.some.inj ha
    exact ⟨⟨first, List.mem_of_mem_head? (by simp [hfirst]), rfl⟩,
      last, List.mem_of_mem_getLast? (by simp [hlast]), rfl⟩
  · cases ha

theorem LaidOut.span_lt (h : LaidOut source ts) {a : Span} (ha : spanOf? ts = some a) :
    a.lo < a.hi := by
  obtain ⟨⟨t, ht, hlo⟩, -⟩ := mem_of_spanOf? ha
  have := (h.lies t ht).lt
  have := (h.bounds ha t ht).2
  omega

end SketchPrep.Token

namespace SketchPrep.Phrase

/-- What has a span begins with one of its tokens. -/
theorem Spells.exists_start {ps : List Phrase} {ts : List Token} (h : Spells ps ts) {p : Phrase}
    (hp : p ∈ ps) {a : Span} (ha : p.span? = some a) : ∃ t ∈ ts, a.lo = t.start.offset := by
  have spans : Each (fun q us => ∀ b, q.span? = some b → Token.spanOf? us = some b) ps ts :=
    h.each (fun t _ own => own ▸ rfl) (fun _ _ _ => nofun) fun _ _ _ _ _ _ span => span
  obtain ⟨us, part, span⟩ := spans.of_mem hp
  obtain ⟨⟨t, ht, lo⟩, -⟩ := Token.mem_of_spanOf? (span a ha)
  exact ⟨t, part.subset ht, lo⟩

end SketchPrep.Phrase
