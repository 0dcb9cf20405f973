import SketchPrep.Proofs.Sketch.ProgramMap

/-!
The lines of the tabs. A line is located by the lines of the tabs before it, an offset by where they
start. Main statements: `exists_endsIn`, every part at the front of the buffer ends in one tab;
`locateLine_lineColumn`, the line of an offset is located in the tab that holds the offset.
-/

namespace SketchPrep.Tab

open Text

/-- A part at the front of the buffer has the tabs before the one at `k`, and `x` of that one. The
last tab has the line feed behind it too. -/
structure EndsIn (tabs : List Tab) (front : Text) (k : Nat) (t : Tab) (x : Text) : Prop where
  tab : tabs[k]? = some t
  parts : front = join (tabs.take k) ++ x
  inside : x <+: t.text ∨ x = t.text ++ ['\n'] ∧ k + 1 = tabs.length

variable {tabs : List Tab} {t : Tab} {front rest x : Text} {k n : Nat}

@[simp] theorem join_nil : join [] = [] := rfl

theorem join_cons (t : Tab) (tabs : List Tab) :
    join (t :: tabs) = t.text ++ '\n' :: join tabs := by
  simp [join]

theorem exists_endsIn (nonempty : tabs ≠ []) (h : join tabs = front ++ rest) :
    ∃ k t x, EndsIn tabs front k t x := by
  induction tabs generalizing front with
  | nil => exact absurd rfl nonempty
  | cons t tabs ih =>
    rw [join_cons] at h
    rcases List.append_eq_append_iff.1 h with ⟨y, rfl, behind⟩ | ⟨y, whole, -⟩
    · cases y with
      | nil => exact ⟨0, t, t.text, rfl, by simp, .inl (List.prefix_refl _)⟩
      | cons c y =>
        obtain ⟨rfl, others⟩ := List.cons.inj behind
        by_cases last : tabs = []
        · subst last
          obtain ⟨rfl, -⟩ := List.append_eq_nil_iff.1 others.symm
          exact ⟨0, t, t.text ++ ['\n'], rfl, by simp, .inr ⟨rfl, rfl⟩⟩
        · obtain ⟨k, u, x, tab, rfl, inside⟩ := ih last others
          refine ⟨k + 1, u, x, tab, ?_, by simpa using inside⟩
          simp [join_cons]
    · exact ⟨0, t, front, rfl, by simp, .inl ⟨y, whole.symm⟩⟩

theorem EndsIn.size_le (h : EndsIn tabs front k t x) :
    x.size ≤ t.text.size ∨ k + 1 = tabs.length := by
  rcases h.inside with ⟨y, whole⟩ | ⟨-, last⟩
  · left
    rw [← whole, size_append]
    exact Nat.le_add_right _ _
  · exact .inr last

theorem EndsIn.count_lt (h : EndsIn tabs front k t x) :
    x.count '\n' < t.lineCount ∨ k + 1 = tabs.length := by
  rcases h.inside with inside | ⟨-, last⟩
  · exact .inl (Nat.lt_succ_of_le (inside.sublist.count_le '\n'))
  · exact .inr last

theorem EndsIn.indexOfOffset (h : EndsIn tabs front k t x) :
    indexOfOffset tabs front.size = k := by
  rw [h.parts, size_append, ← startOf_eq h.tab, indexOfOffset_of_or h.tab h.size_le]

theorem count_join_cons (t : Tab) (tabs : List Tab) :
    (join (t :: tabs)).count '\n' = t.lineCount + (join tabs).count '\n' := by
  rw [join_cons, List.count_append, List.count_cons_self, lineCount]
  omega

theorem locateSkipped_cons_cons (index skipped : Nat) (t u : Tab) (tabs : List Tab) :
    locateSkipped index skipped (t :: u :: tabs) =
      if skipped < t.lineCount then some ⟨index, skipped + 1⟩
      else locateSkipped (index + 1) (skipped - t.lineCount) (u :: tabs) := rfl

/-- Behind the lines of the tabs before it, a line of a tab is found in that tab; the last one has
all lines that lie beyond. -/
theorem locateSkipped_eq (h : tabs[k]? = some t) (hn : n < t.lineCount ∨ k + 1 = tabs.length)
    (index : Nat) :
    locateSkipped index ((join (tabs.take k)).count '\n' + n) tabs = some ⟨index + k, n + 1⟩ := by
  induction tabs generalizing k index with
  | nil => simp at h
  | cons first tabs ih =>
    cases k with
    | zero =>
      obtain rfl : first = t := by simpa using h
      cases tabs with
      | nil => simp [locateSkipped]
      | cons second tabs =>
        have inside : n < first.lineCount := hn.resolve_right (by simp)
        simp [locateSkipped_cons_cons, inside]
    | succ k =>
      have others := @ih k h (by simpa using hn) (index + 1)
      cases tabs with
      | nil => simp at h
      | cons second tabs =>
        rw [List.take_succ_cons, count_join_cons, locateSkipped_cons_cons, if_neg (by omega),
          Nat.add_assoc, Nat.add_sub_cancel_left, others]
        congr 2
        omega

theorem EndsIn.locateLine (h : EndsIn tabs front k t x) :
    locateLine tabs (front.count '\n' + 1) = ⟨k, x.count '\n' + 1⟩ := by
  rw [Tab.locateLine, Nat.add_sub_cancel, h.parts, List.count_append,
    locateSkipped_eq h.tab h.count_lt, Option.getD_some, Nat.zero_add]

theorem lineColumn?_of_append (h : join tabs = front ++ rest) :
    lineColumn? tabs front.size = some (Text.lineColumn front) := by
  have within : front.size ≤ (join tabs).size := by
    rw [h, size_append]
    exact Nat.le_add_right _ _
  have cut : (join tabs).split? front.size = some (front, rest) := split?_eq_some.2 ⟨h, rfl⟩
  simp [lineColumn?, Nat.min_eq_left within, cut]

/-- The line of an offset is located in the tab that holds the offset, as many lines down as there
are line feeds from the start of that tab to the offset. Each offset of a tab, its end included, is
held by that tab. -/
theorem locateLine_lineColumn (tabs : List Tab) (nonempty : tabs ≠ []) :
    (∀ offset, IsBoundary (join tabs) offset →
      ∃ line column part, lineColumn? tabs offset = some (line, column) ∧
        (join tabs).slice? (startOf tabs (indexOfOffset tabs offset)) offset = some part ∧
        locateLine tabs line = ⟨indexOfOffset tabs offset, part.count '\n' + 1⟩) ∧
    ∀ k t, tabs[k]? = some t → ∀ o ≤ t.text.size,
      indexOfOffset tabs (startOf tabs k + o) = k := by
  refine ⟨fun offset boundary => ?_, fun k t tab o ho => indexOfOffset_eq tab ho⟩
  obtain ⟨front, rest, whole, rfl⟩ := isBoundary_iff.1 boundary
  obtain ⟨k, t, x, ends⟩ := exists_endsIn nonempty whole
  refine ⟨_, _, x, lineColumn?_of_append whole, ?_, ?_⟩
  · rw [ends.indexOfOffset, startOf_eq ends.tab, whole, ends.parts, size_append, slice?_append]
  · rw [ends.indexOfOffset]
    exact ends.locateLine

/-- An empty tab between two others, of which the first ends in a line feed: the end of the buffer,
and the line feed behind the empty tab. -/
theorem locateLine_lineColumn_of_empty_tab :
    let tabs := [⟨"a", ['x', '\n']⟩, ⟨"b", []⟩, ⟨"c", ['é']⟩]
    tabs ≠ [] ∧ IsBoundary (join tabs) 3 ∧ IsBoundary (join tabs) 7 ∧
      (∃ line column, lineColumn? tabs 3 = some (line, column) ∧
        locateLine tabs line = ⟨1, 1⟩) ∧
      ∃ line column, lineColumn? tabs 7 = some (line, column) ∧
        locateLine tabs line = ⟨2, 2⟩ := by
  intro tabs
  have nonempty : tabs ≠ [] := by decide
  have middle : IsBoundary (join tabs) 3 := by decide
  have last : IsBoundary (join tabs) 7 := by decide
  obtain ⟨located, -⟩ := locateLine_lineColumn tabs nonempty
  refine ⟨nonempty, middle, last, ?_, ?_⟩
  · obtain ⟨line, column, part, there, slice, here⟩ := located 3 middle
    obtain rfl : [] = part := Option.some.inj slice
    exact ⟨line, column, there, here⟩
  · obtain ⟨line, column, part, there, slice, here⟩ := located 7 last
    obtain rfl : ['é', '\n'] = part := Option.some.inj slice
    exact ⟨line, column, there, here⟩

end SketchPrep.Tab
