import SketchPrep.Proofs.Diagnosis.LastToken
import SketchPrep.Proofs.Diagnosis.Location

/-!
Hints that belong to the token before a line. Main statement: `locate_isPlace`, whatever the source
is, such a hint is shown at a place that the source has in front of the line.
-/

namespace SketchPrep.Issue

open Text

variable {source cs : Text} {line : Nat}

/-- What stands in front of a line: the lines before it, each with its line feed. -/
structure StandsBefore (source : Text) (line : Nat) (front : Text) : Prop where
  starts : front <+: source
  feeds : front.count '\n' + 1 = line
  last : ∀ c ∈ front.getLast?, c = '\n'

theorem getLast?_takeLines {n : Nat} (h : n ≤ cs.count '\n') :
    ∀ c ∈ (takeLines n cs).getLast?, c = '\n' := by
  induction cs generalizing n with
  | nil => cases n <;> simp [takeLines]
  | cons d cs ih =>
    cases n with
    | zero => simp [takeLines]
    | succ n =>
      rw [takeLines, List.getLast?_cons]
      by_cases feed : d = '\n'
      · subst feed
        rw [if_pos rfl]
        rw [List.count_cons_self] at h
        cases hlast : (takeLines n cs).getLast? with
        | none => simp
        | some e => simpa using ih (Nat.le_of_succ_le_succ h) e hlast
      · rw [if_neg feed]
        rw [List.count_cons_of_ne feed] at h
        -- A line feed is still to come, so the line does not end here.
        have more : takeLines (n + 1) cs ≠ [] := by
          intro none
          have feeds := count_takeLines h
          rw [none, List.count_nil] at feeds
          exact absurd feeds (Nat.zero_ne_add_one n)
        have ends := List.getLast?_eq_some_getLast more
        rw [ends, Option.getD_some]
        intro c hc
        exact Option.some.inj hc ▸ ih h _ ends

theorem standsBefore_takeLines (first : 1 ≤ line) (last : line ≤ source.count '\n' + 1) :
    StandsBefore source line (takeLines (line - 1) source) where
  starts := by
    obtain ⟨behind, whole⟩ := exists_takeLines (line - 1) source
    exact ⟨behind, whole.symm⟩
  feeds := by
    rw [count_takeLines (by omega)]
    omega
  last := getLast?_takeLines (by omega)

/-- The text in front of the line ends with what `k` characters read backwards leave out. -/
theorem exists_gap {front : Text} {k : Nat} (h : k ≤ front.length) :
    ∃ before gap, front = before ++ gap ∧ gap.length = k := by
  refine ⟨front.take (front.length - k), front.drop (front.length - k), ?_, ?_⟩
  · exact (List.take_append_drop ..).symm
  · rw [List.length_drop]
    omega

/-- A hint that belongs to the last token in front of a line is shown at the end of some character
there that is not blank, or at the start of the line. Nothing more is left out than there is. -/
theorem locate_isPlace {h : Hint} (prior : h.toPrior) (first : 1 ≤ line)
    (last : line ≤ source.count '\n' + 1) (column : Nat) :
    ∃ before gap, StandsBefore source line (before ++ gap) ∧
      locate h.toPrior line column (some source) = before.lineColumn ∧
      (gap = [] ∨ ∃ c ∈ before.getLast?, LastToken.isBlank c = false) ∧
      (locate h.toPrior line column (some source)).1 ≤ line ∧
      ∀ k, (LastToken.start.scan (before ++ gap).reverse).position = some k →
        k ≤ (before ++ gap).length ∧ ((before ++ gap).reverse.take k).count '\n' ≤ line := by
  have stands := standsBefore_takeLines first last
  have asked : (h.toPrior && decide (line ≠ 0)) = true := by
    rw [prior]
    simp
    omega
  have own : locate h.toPrior line column (some source) = locatePrior line source := if_pos asked
  have fewer : ∀ k, ((takeLines (line - 1) source).reverse.take k).count '\n' ≤ line := by
    intro k
    have part := (List.take_sublist k (takeLines (line - 1) source).reverse).count_le '\n'
    rw [List.count_reverse] at part
    have feeds := stands.feeds
    omega
  have inside : ∀ k,
      (LastToken.start.scan (takeLines (line - 1) source).reverse).position = some k →
        k ≤ (takeLines (line - 1) source).length ∧
          ((takeLines (line - 1) source).reverse.take k).count '\n' ≤ line := by
    intro k hk
    exact ⟨by simpa using LastToken.position_le_of_scan hk, fewer k⟩
  cases found : (LastToken.start.scan (takeLines (line - 1) source).reverse).position with
  | none =>
    have place : locatePrior line source = (takeLines (line - 1) source).lineColumn :=
      locatePrior_eq first last (List.append_nil _).symm (by rw [List.append_nil, found]; rfl)
    refine ⟨takeLines (line - 1) source, [], ?_, own.trans place, .inl rfl, ?_, ?_⟩
    · rwa [List.append_nil]
    · rw [own, place]
      exact Nat.le_of_eq stands.feeds
    · rwa [List.append_nil]
  | some k =>
    obtain ⟨before, gap, cut, length⟩ := exists_gap (inside k found).1
    have place : locatePrior line source = before.lineColumn :=
      locatePrior_eq first last cut (by rw [← cut, found, length]; rfl)
    refine ⟨before, gap, cut ▸ stands, own.trans place, .inr ?_, ?_, cut ▸ inside⟩
    · obtain ⟨c, hc, plain⟩ := LastToken.position_of_scan found
      rw [cut, List.reverse_append, ← length, ← List.length_reverse,
        List.getElem?_append_right (Nat.le_refl _), Nat.sub_self] at hc
      refine ⟨c, ?_, plain⟩
      rwa [List.getLast?_eq_head?_reverse, List.head?_eq_getElem?]
    · rw [own, place]
      have feeds := stands.feeds
      rw [cut, List.count_append] at feeds
      simp only [Text.lineColumn]
      omega

/-- Nothing but a comment stands in front of the line, so that the automaton is left with the place
behind the star that closes it. -/
theorem locate_isPlace_of_comment :
    let source : Text := "/* why\n*/\nint x".toList
    locate true 3 4 (some source) = (2, 1) ∧
    ∃ before gap, StandsBefore source 3 (before ++ gap) ∧
      locate true 3 4 (some source) = before.lineColumn ∧
      (gap = [] ∨ ∃ c ∈ before.getLast?, LastToken.isBlank c = false) ∧
      (locate true 3 4 (some source)).1 ≤ 3 ∧
      ∀ k, (LastToken.start.scan (before ++ gap).reverse).position = some k →
        k ≤ (before ++ gap).length ∧ ((before ++ gap).reverse.take k).count '\n' ≤ 3 :=
  ⟨by decide, locate_isPlace (h := ⟨"Missing ';'?", true⟩) rfl (by decide) (by decide) 4⟩

end SketchPrep.Issue
