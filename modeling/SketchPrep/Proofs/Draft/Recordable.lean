import SketchPrep.Proofs.Draft.Rendering

/-!
Edits that a draft records all and renders. Main statements: `recordAll_of_recordable`,
`text?_of_recordable`; `recordable_iff`, there are no others.
-/

namespace SketchPrep

open Text

/-- The edits lie in the source, begin and end between two characters, and stand apart: no two
deletions overlap, and no insertion falls strictly inside a deletion. -/
structure Edit.Recordable (source : Text) (es : List Edit) : Prop where
  fits : ∀ e ∈ es, e.Fits source.size
  boundaries : ∀ e ∈ es, IsBoundary source e.offset ∧ IsBoundary source e.stop
  apart : es.Pairwise Edit.Apart

namespace Edit

variable {source : Text} {es fs : List Edit}

theorem Recordable.append (h : Recordable source es) (k : Recordable source fs)
    (cross : ∀ a ∈ es, ∀ b ∈ fs, a.Apart b) : Recordable source (es ++ fs) := by
  refine ⟨?_, ?_, List.pairwise_append.2 ⟨h.apart, k.apart, cross⟩⟩
  · intro e he
    exact (List.mem_append.1 he).elim (h.fits e) (k.fits e)
  · intro e he
    exact (List.mem_append.1 he).elim (h.boundaries e) (k.boundaries e)

theorem Recordable.left (h : Recordable source (es ++ fs)) : Recordable source es where
  fits := fun e he => h.fits e (List.mem_append_left fs he)
  boundaries := fun e he => h.boundaries e (List.mem_append_left fs he)
  apart := (List.pairwise_append.1 h.apart).1

theorem recordable_insert {o : Nat} (h : IsBoundary source o) (t : Text) :
    Recordable source [.insert o t] :=
  ⟨by simpa [Fits] using h.le_size, by simpa using h, by simp⟩

theorem Recordable.insert_zero (h : Recordable source es) (t : Text) :
    Recordable source (.insert 0 t :: es) := by
  refine (recordable_insert (isBoundary_zero source) t).append h ?_
  rw [List.forall_mem_singleton]
  intro b _
  cases b with
  | insert => trivial
  | delete p n => exact .inl (Nat.zero_le p)

theorem Recordable.insert_size (h : Recordable source es) (t : Text) :
    Recordable source (es ++ [.insert source.size t]) := by
  refine h.append (recordable_insert (isBoundary_size source) t) fun a ha => ?_
  rw [List.forall_mem_singleton]
  cases a with
  | insert => trivial
  | delete p n => exact .inr (h.fits _ ha).2

end Edit

namespace Draft

variable {source : Text} {d : Draft}

theorem wellFormed_of_recordable (h : Edit.Recordable d.source d.edits) : d.WellFormed :=
  ⟨d.size_eq ▸ h.fits, h.apart⟩

theorem recordAll_of_recordable {qs : List Request}
    (h : Edit.Recordable d.source (d.edits ++ qs.map Request.edit)) :
    d.recordAll qs = ({ d with edits := d.edits ++ qs.map Request.edit }, none) := by
  have fits : ∀ e ∈ d.edits ++ qs.map Request.edit, e.Fits d.size := d.size_eq ▸ h.fits
  refine recordAll_of_apart ⟨fun e he => fits e (List.mem_append_left _ he), ?_⟩ ?_ h.apart
  · exact (List.pairwise_append.1 h.apart).1
  · exact fun q hq => fits _ (List.mem_append_right _ (List.mem_map_of_mem hq))

theorem text?_of_recordable (h : Edit.Recordable d.source d.edits) : d.text?.isSome := by
  rw [text?_eq (wellFormed_of_recordable h) h.boundaries]
  rfl

/-- The request for an edit. -/
def Request.ofEdit : Edit → Request
  | .insert o t => .insert o t
  | .delete o n => .delete ⟨o, o + n⟩

@[simp] theorem Request.edit_ofEdit (e : Edit) : (ofEdit e).edit = e := by
  cases e <;> simp [ofEdit, edit]

/-- Edits that cut no character are recordable iff some calls leave a draft with just them. -/
theorem recordable_iff {es : List Edit} :
    Edit.Recordable source es ↔
      (∀ e ∈ es, IsBoundary source e.offset ∧ IsBoundary source e.stop) ∧
        ∃ calls, (afterCalls source calls).edits = es := by
  constructor
  · intro h
    have requested : (es.map Request.ofEdit).map Request.edit = es := by
      simp [Function.comp_def]
    have recorded := @recordAll_of_recordable (ofSource source) (es.map Request.ofEdit)
      (by rw [requested]; exact h)
    refine ⟨h.boundaries, [es.map Request.ofEdit], ?_⟩
    rw [afterCalls, List.foldl_cons, List.foldl_nil, recorded, requested]
    rfl
  · rintro ⟨boundaries, calls, rfl⟩
    have wf := wellFormed_afterCalls source calls
    have fits := wf.fits
    rw [Draft.size_eq, afterCalls_source] at fits
    exact ⟨fits, boundaries, wf.apart⟩

end Draft

end SketchPrep
