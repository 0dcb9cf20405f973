import Mathlib.Data.List.Sort
import SketchPrep.Proofs.Draft.Acceptance

/-!
The order of requests. Insertions at one offset are rendered in their order, and no other order
matters. Main statements: `takes_perm`, whether all requests are taken does not depend on their
order; `recordAll_reordered`, what they are rendered to does not either.
-/

namespace SketchPrep.Draft

/-- The request is to insert at `offset`. -/
def Request.insertsAt (offset : Nat) : Request → Bool
  | .insert o _ => o = offset
  | .delete _ => false

/-- The same requests in another order, in which the insertions at one offset keep theirs. -/
structure Reordered (ps qs : List Request) : Prop where
  perm : ps.Perm qs
  inserts : ∀ o, ps.filter (Request.insertsAt o) = qs.filter (Request.insertsAt o)

variable {d e : Draft} {ps qs : List Request}

/-! ### Acceptance -/

theorem takes_perm (h : d.WellFormed) (perm : ps.Perm qs) : d.Takes ps ↔ d.Takes qs := by
  have fits : (∀ q ∈ ps, q.edit.Fits d.size) ↔ ∀ q ∈ qs, q.edit.Fits d.size :=
    forall_congr' fun q => by rw [perm.mem_iff]
  have edits := (perm.map Request.edit).append_left d.edits
  rw [takes_iff h, takes_iff h, fits, edits.pairwise_iff Edit.Apart.symm]

/-! ### Rendering -/

theorem points_congr (mem : ∀ x, x ∈ d.edits ↔ x ∈ e.edits) : d.points = e.points := by
  have same (p : Nat) : p ∈ d.points ↔ p ∈ e.points := by
    simp only [mem_points, mem]
  exact List.Subset.antisymm_of_pairwise d.pairwise_points e.pairwise_points
    (fun p => (same p).1) fun p => (same p).2

theorem resumeAt_congr (hd : d.WellFormed) (he : e.WellFormed)
    (mem : ∀ x, x ∈ d.edits ↔ x ∈ e.edits) (p : Nat) : d.resumeAt p = e.resumeAt p := by
  by_cases starts : ∃ n, .delete p n ∈ d.edits
  · obtain ⟨n, hn⟩ := starts
    rw [resumeAt_eq hd hn, resumeAt_eq he ((mem _).1 hn)]
  · have none_here (n : Nat) : .delete p n ∉ d.edits := fun hn => starts ⟨n, hn⟩
    rw [resumeAt_of_no_delete none_here,
      resumeAt_of_no_delete fun n hn => none_here n ((mem _).2 hn)]

theorem render_congr (inserted : ∀ p, d.insertedAt p = e.insertedAt p)
    (resume : ∀ p, d.resumeAt p = e.resumeAt p) (pos : Nat) (rest : Text) (points : List Nat) :
    d.render pos rest points = e.render pos rest points := by
  induction points generalizing pos rest with
  | nil => rfl
  | cons p points ih => simp only [render, inserted, resume, ih]

/-- Drafts with the same edits, which insert the same at each offset, are rendered alike, also if
their edits cut a character. -/
theorem text?_congr (hd : d.WellFormed) (he : e.WellFormed) (source : d.source = e.source)
    (mem : ∀ x, x ∈ d.edits ↔ x ∈ e.edits) (inserted : ∀ p, d.insertedAt p = e.insertedAt p) :
    d.text? = e.text? := by
  rw [text?, text?, source, points_congr mem,
    render_congr inserted (resumeAt_congr hd he mem)]

theorem insertsAt_edit (o : Nat) (q : Request) : q.edit.insertsAt o = q.insertsAt o := by
  cases q <;> rfl

theorem Reordered.insertedAt (h : Reordered ps qs) (d : Draft) (p : Nat) :
    (d.withCall ps).insertedAt p = (d.withCall qs).insertedAt p := by
  have here (rs : List Request) : (rs.map Request.edit).filter (Edit.insertsAt p) =
      (rs.filter (Request.insertsAt p)).map Request.edit := by
    rw [List.filter_map]
    simp only [Function.comp_def, insertsAt_edit]
  have same : Edit.insertedAt (ps.map Request.edit) p = Edit.insertedAt (qs.map Request.edit) p :=
    Edit.insertedAt_congr (by rw [here, here, h.inserts])
  rw [insertedAt_eq, insertedAt_eq, withCall, withCall, Edit.insertedAt_append,
    Edit.insertedAt_append, same]

theorem text?_reordered (wf : d.WellFormed) (h : Reordered ps qs) (taken : d.Takes ps) :
    (d.recordAll ps).1.text? = (d.recordAll qs).1.text? := by
  have hp := wellFormed_recordAll wf ps
  have hq := wellFormed_recordAll wf qs
  rw [recordAll_of_takes wf taken] at hp ⊢
  rw [recordAll_of_takes wf ((takes_perm wf h.perm).1 taken)] at hq ⊢
  refine text?_congr hp hq rfl (fun x => ?_) (h.insertedAt d)
  exact ((h.perm.map Request.edit).append_left d.edits).mem_iff

/-- In another order, in which insertions at one offset keep theirs, requests are all taken iff they
were, and the draft is rendered as it was. -/
theorem recordAll_reordered (source : Text) (h : Reordered ps qs) :
    ((ofSource source).Takes ps ↔ (ofSource source).Takes qs) ∧
      ((ofSource source).Takes ps →
        ((ofSource source).recordAll ps).1.text? = ((ofSource source).recordAll qs).1.text?) :=
  ⟨takes_perm (wellFormed_ofSource source) h.perm, text?_reordered (wellFormed_ofSource source) h⟩

/-- Insertions at both ends of a deletion are taken in either order. One inside is refused if the
deletion comes first, and the deletion is refused if the insertion comes first. -/
theorem recordAll_reordered_of_delete_bounds :
    let d := ofSource ['a', 'b', 'c', 'd', 'e', 'f']
    let ps := insertBefore 4 [']'] ++ delete 2 3 ++ insertBefore 2 ['['] ++ insertBefore 2 ['(']
    let qs := insertBefore 2 ['['] ++ insertBefore 2 ['('] ++ delete 2 3 ++ insertBefore 4 [']']
    let inside := delete 2 3 ++ insertBefore 3 ['x']
    let around := insertBefore 3 ['x'] ++ delete 2 3
    Reordered ps qs ∧ d.Takes ps ∧ d.Takes qs ∧
      (d.recordAll qs).1.text? = some ['a', 'b', '[', '(', ']', 'e', 'f'] ∧
      Reordered inside around ∧ ¬d.Takes inside ∧ ¬d.Takes around := by
  intro d ps qs inside around
  have reordered : Reordered ps qs := ⟨by decide, fun o => by
    by_cases start : 2 = o
    · subst start; decide
    · by_cases stop : 4 = o
      · subst stop; decide
      · simp [ps, qs, insertBefore, delete, Request.insertsAt, start, stop]⟩
  have swapped : Reordered inside around := ⟨by decide, fun o => by
    simp [inside, around, insertBefore, delete, Request.insertsAt, List.filter_cons]⟩
  obtain ⟨takes, same⟩ := recordAll_reordered ['a', 'b', 'c', 'd', 'e', 'f'] reordered
  obtain ⟨refuses, -⟩ := recordAll_reordered ['a', 'b', 'c', 'd', 'e', 'f'] swapped
  have taken : d.Takes ps := by decide
  have refused : ¬d.Takes inside := by decide
  have rendered : (d.recordAll ps).1.text? = some ['a', 'b', '[', '(', ']', 'e', 'f'] := by
    rw [text?_eq (wellFormed_recordAll (wellFormed_ofSource _) _) (by decide)]
    decide
  exact ⟨reordered, taken, takes.1 taken, (same taken).symm.trans rendered, swapped, refused,
    fun around => refused (refuses.2 around)⟩

end SketchPrep.Draft
