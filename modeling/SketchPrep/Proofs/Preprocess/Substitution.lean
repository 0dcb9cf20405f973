import SketchPrep.Preprocess
import SketchPrep.Proofs.Draft.Recordable

/-!
The substitution of characters clashes with no edit of the draft that it goes into. Main statement:
`recordable_substitution`.
-/

namespace SketchPrep.Preprocess

open Edit Text

/-- The edits that replace the character at an offset. -/
def charEdits (offset : Nat) (c : Char) : List Edit :=
  [.delete offset c.utf8Size, .insert offset (Literal.escapeChar c)]

variable {d : Draft} {a rest : Text} {c : Char}

theorem recordable_charEdits {source : Text} (hs : source = a ++ c :: rest) :
    Recordable source (charEdits a.size c) := by
  have hc := c.utf8Size_pos
  have start : IsBoundary source a.size := isBoundary_iff.2 ⟨a, c :: rest, hs, rfl⟩
  have stop : IsBoundary source (a.size + c.utf8Size) :=
    isBoundary_iff.2 ⟨a ++ [c], rest, by simp [hs], by simp⟩
  refine ⟨?_, ?_, ?_⟩
  · simp [charEdits, Fits, hc, start.le_size, stop.le_size]
  · simp [charEdits, start, stop]
  · simp [charEdits, Apart]

/-- An edit that does not cut the character and does not delete it stands apart from its
substitution. -/
theorem apart_charEdits {e : Edit} (h : Recordable d.source d.edits)
    (hs : d.source = a ++ c :: rest) (he : e ∈ d.edits) (kept : ¬d.isDeleted a.size) :
    ∀ b ∈ charEdits a.size c, e.Apart b := by
  have hc := c.utf8Size_pos
  obtain ⟨start, stop⟩ := h.boundaries e he
  rw [hs] at start stop
  have lo := start.outside
  have hi := stop.outside
  cases e with
  | insert o t =>
    simp only [offset_insert] at lo
    simp only [charEdits, List.forall_mem_cons, Apart]
    exact ⟨by omega, trivial, by simp⟩
  | delete o n =>
    have outside : a.size < o ∨ o + n ≤ a.size := by
      rw [Draft.isDeleted_eq (Draft.wellFormed_of_recordable h), deletesAt_iff] at kept
      by_contra inside
      exact kept ⟨o, n, he, by omega, by omega⟩
    simp only [offset_delete, stop_delete] at lo hi
    simp only [charEdits, List.forall_mem_cons, Apart]
    exact ⟨by omega, by omega, by simp⟩

/-- What is substituted depends on the draft's deletions alone. -/
theorem substitutionRequests_congr {d e : Draft} (h : d.deletes = e.deletes) (o : Nat) (cs : Text) :
    substitutionRequests d o cs = substitutionRequests e o cs := by
  have same (n : Nat) : d.isDeleted n = e.isDeleted n := by
    simp only [Draft.isDeleted, Draft.deleteAround?, Draft.deleteBefore?, h]
  induction cs generalizing o with
  | nil => rfl
  | cons c cs ih => rw [substitutionRequests, substitutionRequests, same, ih]

/-- The edits of a substitution, character by character. -/
theorem map_edit_substitutionRequests (d : Draft) (o : Nat) (c : Char) (cs : Text) :
    (substitutionRequests d o (c :: cs)).map Draft.Request.edit =
      (if CharClass.isAscii c || d.isDeleted o then [] else charEdits o c) ++
        (substitutionRequests d (o + c.utf8Size) cs).map Draft.Request.edit := by
  have hc := c.utf8Size_pos
  have size : o + c.utf8Size - 1 + 1 - o = c.utf8Size := by omega
  rw [substitutionRequests, List.map_append]
  split
  · rfl
  · simp [Draft.delete, Draft.insertBefore, Draft.Request.edit, charEdits, size]

theorem le_offset_of_mem_substitution {o : Nat} {cs : Text} {e : Edit}
    (he : e ∈ (substitutionRequests d o cs).map Draft.Request.edit) : o ≤ e.offset := by
  induction cs generalizing o with
  | nil => simp [substitutionRequests] at he
  | cons c cs ih =>
    rw [map_edit_substitutionRequests, List.mem_append] at he
    rcases he with he | he
    · split at he
      · cases he
      · simp only [charEdits, List.mem_cons, List.not_mem_nil, or_false] at he
        rcases he with rfl | rfl <;> simp
    · have := ih he
      omega

theorem recordable_substitutionRequests {cs : Text} (h : Recordable d.source d.edits)
    (hs : d.source = a ++ cs) :
    Recordable d.source ((substitutionRequests d a.size cs).map Draft.Request.edit) ∧
      ∀ e ∈ d.edits, ∀ b ∈ (substitutionRequests d a.size cs).map Draft.Request.edit,
        e.Apart b := by
  induction cs generalizing a with
  | nil => exact ⟨⟨by simp [substitutionRequests], by simp [substitutionRequests],
      by simp [substitutionRequests]⟩, by simp [substitutionRequests]⟩
  | cons c cs ih =>
    obtain ⟨recordable, apart⟩ := @ih (a ++ [c]) (by simp [hs])
    rw [map_edit_substitutionRequests]
    simp only [size_append, size_cons, size_nil, Nat.add_zero] at recordable apart
    split
    · exact ⟨recordable, apart⟩
    · rename_i kept
      simp only [Bool.or_eq_true, not_or] at kept
      constructor
      · refine (recordable_charEdits hs).append recordable fun x hx y hy => ?_
        -- later characters are replaced behind this one
        have behind := le_offset_of_mem_substitution hy
        have := c.utf8Size_pos
        simp only [charEdits, List.mem_cons, List.not_mem_nil, or_false] at hx
        rcases hx with rfl | rfl <;> cases y <;> simp only [Apart, Edit.offset] at behind ⊢ <;>
          omega
      · intro e he b hb
        rcases List.mem_append.1 hb with hb | hb
        · exact apart_charEdits h hs he kept.2 b hb
        · exact apart e he b hb

theorem recordable_substitution (h : Recordable d.source d.edits) :
    Recordable d.source (d.edits ++ (substitution d).map Draft.Request.edit) := by
  obtain ⟨recordable, apart⟩ := @recordable_substitutionRequests d [] d.source h rfl
  exact h.append recordable apart

end SketchPrep.Preprocess
