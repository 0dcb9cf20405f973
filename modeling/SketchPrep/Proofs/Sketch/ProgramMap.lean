import SketchPrep.Proofs.Edit.Offsets
import SketchPrep.Sketch.ProgramMap

/-!
From a tab to the program and back. Main statements: `indexOfOffset_eq`, each offset of a tab, its
end included, belongs to that tab; `toSketch_toProgram`, an offset that no edit deletes comes back
to where it was.
-/

namespace SketchPrep

open Text

namespace Tab

variable {tabs : List Tab} {t : Tab} {k o offset : Nat}

@[simp] theorem size_join_cons (t : Tab) (tabs : List Tab) :
    (join (t :: tabs)).size = t.text.size + 1 + (join tabs).size := by
  simp [join, show ('\n').utf8Size = 1 from rfl, Nat.add_assoc]

theorem getElem?_startsFrom (h : tabs[k]? = some t) :
    (startsFrom offset tabs)[k]? = some (offset + (join (tabs.take k)).size) := by
  induction tabs generalizing k offset with
  | nil => simp at h
  | cons first tabs ih =>
    cases k with
    | zero => rfl
    | succ k =>
      have rest := @ih k (offset + first.text.size + 1) h
      simp only [startsFrom, List.getElem?_cons_succ, rest, List.take_succ_cons, size_join_cons]
      congr 1
      omega

theorem startOf_eq (h : tabs[k]? = some t) : startOf tabs k = (join (tabs.take k)).size := by
  rw [startOf, starts, getElem?_startsFrom h, Option.getD_some, Nat.zero_add]

/-- The tabs that start no later than an offset of a tab are those before it and itself. -/
theorem length_takeWhile_startsFrom (h : tabs[k]? = some t)
    (ho : o ≤ t.text.size ∨ k + 1 = tabs.length) :
    ((startsFrom offset tabs).takeWhile
      (· ≤ offset + (join (tabs.take k)).size + o)).length = k + 1 := by
  induction tabs generalizing k offset with
  | nil => simp at h
  | cons first tabs ih =>
    cases k with
    | zero =>
      obtain rfl : first = t := by simpa using h
      have later : (startsFrom (offset + first.text.size + 1) tabs).takeWhile
          (· ≤ offset + o) = [] := by
        cases tabs with
        | nil => rfl
        | cons second tabs =>
          have : ¬offset + first.text.size + 1 ≤ offset + o := by
            simp only [List.length_cons] at ho
            omega
          simp [startsFrom, this]
      simp [startsFrom, join, later]
    | succ k =>
      have rest := @ih k (offset + first.text.size + 1) h (by simpa using ho)
      have here : offset ≤ offset + (join ((first :: tabs).take (k + 1))).size + o := by omega
      have same : offset + (join ((first :: tabs).take (k + 1))).size + o =
          offset + first.text.size + 1 + (join (tabs.take k)).size + o := by
        rw [List.take_succ_cons, size_join_cons]
        omega
      rw [startsFrom, List.takeWhile_cons_of_pos (by simpa using here), List.length_cons, same, rest]

/-- Beyond the last tab there is no other. -/
theorem indexOfOffset_of_or (h : tabs[k]? = some t) (ho : o ≤ t.text.size ∨ k + 1 = tabs.length) :
    indexOfOffset tabs (startOf tabs k + o) = k := by
  have count := @length_takeWhile_startsFrom tabs t k o 0 h ho
  rw [Nat.zero_add] at count
  rw [indexOfOffset, starts, startOf_eq h, count, Nat.add_sub_cancel]

theorem indexOfOffset_eq (h : tabs[k]? = some t) (ho : o ≤ t.text.size) :
    indexOfOffset tabs (startOf tabs k + o) = k :=
  indexOfOffset_of_or h (.inl ho)

theorem join_eq (h : tabs[k]? = some t) :
    join tabs = join (tabs.take k) ++ join (t :: tabs.drop (k + 1)) := by
  obtain ⟨lt, rfl⟩ := List.getElem?_eq_some_iff.1 h
  rw [← List.drop_eq_getElem_cons lt, join, join, join, ← List.flatMap_append,
    List.take_append_drop]

/-- The line feed behind a tab is part of the buffer. -/
theorem startOf_add_lt (h : tabs[k]? = some t) (ho : o ≤ t.text.size) :
    startOf tabs k + o < (join tabs).size := by
  rw [startOf_eq h, join_eq h, size_append, size_join_cons]
  omega

/-- Where a tab can be cut, the buffer can. -/
theorem exists_append_of_isBoundary (h : tabs[k]? = some t) (ho : IsBoundary t.text o) :
    ∃ a rest, join tabs = a ++ rest ∧ a.size = startOf tabs k + o := by
  obtain ⟨x, y, text, rfl⟩ := isBoundary_iff.1 ho
  refine ⟨join (tabs.take k) ++ x, y ++ '\n' :: join (tabs.drop (k + 1)), ?_, ?_⟩
  · rw [join_eq h]
    simp [join, text]
  · rw [startOf_eq h, size_append]

end Tab

namespace ProgramMap

open Edit

/-- An offset of a tab that is not deleted comes back from the program as it was. -/
theorem toSketch_toProgram (tabs : List Tab) {es : List Edit} (h : Recordable (Tab.join tabs) es) :
    ∃ m, ofEdits? tabs es = some m ∧ ∀ k t, tabs[k]? = some t → ∀ o ≤ t.text.size,
      deletesAt es (Tab.startOf tabs k + o) = false →
      m.toSketch (m.toProgram k o) (m.toProgram k o) =
        ⟨k, o, o, Tab.startOf tabs k + o, Tab.startOf tabs k + o⟩ := by
  obtain ⟨offsets, made⟩ := makeAll?_eq h.fits h.apart h.boundaries
  have maps := h.maps made
  refine ⟨_, by rw [ofEdits?, made]; rfl, fun k t ht o ho kept => ?_⟩
  have survives : Survives (Tab.join tabs) es (Tab.startOf tabs k + o) :=
    ⟨Tab.startOf_add_lt ht ho, kept⟩
  have back : offsets.toInput (offsets.toOutput (Tab.startOf tabs k + o)) =
      Tab.startOf tabs k + o := by
    rw [maps.toOutput_kept _ survives, maps.toInput_landing survives]
  simp only [toSketch, toProgram, back, Tab.indexOfOffset_eq ht ho, Nat.max_self,
    Nat.add_sub_cancel_left]

/-- The end of an empty tab, next to an edit on either side. -/
theorem toSketch_toProgram_of_empty_tab :
    let tabs := [⟨"a", ['x']⟩, ⟨"b", []⟩, ⟨"c", ['y']⟩]
    let es := [.delete 0 2, .insert 2 ['z'], .insert 3 ['z'], .delete 3 1]
    Recordable (Tab.join tabs) es ∧ ∃ m, ofEdits? tabs es = some m ∧
      m.toSketch (m.toProgram 1 0) (m.toProgram 1 0) = ⟨1, 0, 0, 2, 2⟩ := by
  intro tabs es
  have recordable : Recordable (Tab.join tabs) es := ⟨by decide, by decide, by decide⟩
  obtain ⟨m, made, back⟩ := toSketch_toProgram tabs recordable
  exact ⟨recordable, m, made, back 1 ⟨"b", []⟩ rfl 0 (by decide) (by decide)⟩

end ProgramMap

end SketchPrep
