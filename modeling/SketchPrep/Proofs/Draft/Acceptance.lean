import SketchPrep.Proofs.Draft.Rendering

/-!
Which calls a draft takes. Main statements: `takes_iff`, it takes the requests that fit the text and
stand apart from each other and from what is recorded; `exists_recorded`, of any call it records a
part from the front, and all of it just if it takes the call; `afterCalls_answers`, what that comes
to for a draft after any calls, refused ones included.
-/

namespace SketchPrep

/-- The byte at an offset lies in the span. -/
def Span.Covers (s : Span) (i : Nat) : Prop := s.lo ≤ i ∧ i < s.hi

namespace Draft

/-- The draft with all that a call asks for. -/
def withCall (d : Draft) (call : List Request) : Draft :=
  { d with edits := d.edits ++ call.map Request.edit }

/-- No request of the call is refused. -/
def Takes (d : Draft) (call : List Request) : Prop := (d.recordAll call).2 = none

instance (d : Draft) (call : List Request) : Decidable (d.Takes call) :=
  inferInstanceAs (Decidable (_ = none))

/-- Deletions have bytes to delete, no byte is deleted twice, and nothing is inserted between two
bytes that one deletion covers. -/
structure Separated (d : Draft) : Prop where
  nonempty : ∀ s ∈ d.deletes, s.lo < s.hi
  inBounds : ∀ s ∈ d.deletes, s.hi ≤ d.source.size
  disjoint : d.deletes.Pairwise fun s u => ∀ i, ¬(s.Covers i ∧ u.Covers i)
  outside : ∀ p ∈ d.inserts, ∀ s ∈ d.deletes, ¬(s.lo < p.1 ∧ p.1 < s.hi)

/-- How a draft answers to a call: when it takes it, and what it records of it. -/
structure Answers (d : Draft) : Prop where
  takes_insert : ∀ n t, d.Takes (insertBefore n t) ↔
    n ≤ d.source.size ∧ ∀ s ∈ d.deletes, ¬(s.lo < n ∧ n < s.hi)
  takes_delete : ∀ a b, d.Takes (delete a b) ↔ a ≤ b ∧ b < d.source.size ∧
    (∀ s ∈ d.deletes, ∀ i, a ≤ i → i < b + 1 → ¬s.Covers i) ∧
      ∀ p ∈ d.inserts, ¬(a < p.1 ∧ p.1 ≤ b)
  isDeleted : ∀ n, d.isDeleted n ↔ ∃ s ∈ d.deletes, s.Covers n
  taken : ∀ call, d.Takes call → (d.recordAll call).1 = d.withCall call
  refused_insert : ∀ n t, ¬d.Takes (insertBefore n t) → (d.recordAll (insertBefore n t)).1 = d
  refused_delete : ∀ a b, ¬d.Takes (delete a b) → (d.recordAll (delete a b)).1 = d
  refused_replace : ∀ a t, ¬d.Takes (replaceSpan a t) →
    (d.recordAll (replaceSpan a t)).1 = d ∨
      (d.recordAll (replaceSpan a t)).1 = d.withCall (insertBeforeSpan a t)

variable {d : Draft}

@[simp] theorem withCall_nil (d : Draft) : d.withCall [] = d := by simp [withCall]

/-! ### What a call leaves behind -/

theorem exists_recorded (h : d.WellFormed) (call : List Request) :
    ∃ done rest, call = done ++ rest ∧ (d.recordAll call).1 = d.withCall done ∧
      (d.Takes call ↔ rest = []) := by
  induction call generalizing d with
  | nil => exact ⟨[], [], rfl, by simp [recordAll], by simp [Takes, recordAll]⟩
  | cons q call ih =>
    cases hq : d.record q with
    | error fault =>
      refine ⟨[], q :: call, rfl, ?_, ?_⟩ <;> simp [Takes, recordAll, hq]
    | ok next =>
      obtain ⟨done, rest, rfl, left, takes⟩ := ih (h.record hq)
      obtain ⟨-, rfl⟩ := (record_eq_ok_iff h).1 hq
      refine ⟨q :: done, rest, rfl, ?_, ?_⟩
      · rw [recordAll_cons_of_ok hq, left]
        simp [withCall]
      · rw [← takes, Takes, Takes, recordAll_cons_of_ok hq]

theorem recordAll_of_takes (h : d.WellFormed) {call : List Request} (taken : d.Takes call) :
    (d.recordAll call).1 = d.withCall call := by
  obtain ⟨done, rest, rfl, left, takes⟩ := exists_recorded h call
  rw [left, takes.1 taken, List.append_nil]

/-- Of a single request that is refused nothing is left. -/
theorem recordAll_of_refused (h : d.WellFormed) {q : Request} (refused : ¬d.Takes [q]) :
    (d.recordAll [q]).1 = d := by
  obtain ⟨done, rest, split, left, takes⟩ := exists_recorded h [q]
  have more : rest ≠ [] := fun none => refused (takes.2 none)
  cases done with
  | nil => rw [left, withCall_nil]
  | cons p done => simp_all

theorem takes_iff (h : d.WellFormed) {call : List Request} :
    d.Takes call ↔ (∀ q ∈ call, q.edit.Fits d.size) ∧
      (d.edits ++ call.map Request.edit).Pairwise Edit.Apart := by
  constructor
  · intro taken
    have whole : d.recordAll call = (d.withCall call, none) :=
      Prod.ext (recordAll_of_takes h taken) taken
    have wf := wellFormed_recordAll h call
    rw [whole] at wf
    exact ⟨(apart_of_recordAll h whole).1, wf.apart⟩
  · rintro ⟨fits, apart⟩
    rw [Takes, recordAll_of_apart h fits apart]

theorem takes_singleton_iff (h : d.WellFormed) {q : Request} :
    d.Takes [q] ↔ q.edit.Fits d.size ∧ ∀ e ∈ d.edits, e.Apart q.edit := by
  rw [takes_iff h, List.map_singleton, List.pairwise_append]
  simp [h.apart]

/-! ### The calls -/

theorem takes_insertBefore_iff (h : d.WellFormed) {n : Nat} {t : Text} :
    d.Takes (insertBefore n t) ↔
      n ≤ d.source.size ∧ ∀ s ∈ d.deletes, ¬(s.lo < n ∧ n < s.hi) := by
  rw [insertBefore, takes_singleton_iff h, ← d.size_eq]
  refine and_congr_right fun _ => ⟨fun apart s hs => ?_, fun outside e he => ?_⟩
  · obtain ⟨o, m, he, rfl⟩ := mem_deletes.1 hs
    have := apart _ he
    simp only [Edit.Apart, Request.edit] at this ⊢
    omega
  · cases e with
    | insert => trivial
    | delete o m =>
      have := outside _ (mem_deletes.2 ⟨o, m, he, rfl⟩)
      simp only [Edit.Apart, Request.edit] at this ⊢
      omega

theorem takes_delete_iff (h : d.WellFormed) {a b : Nat} :
    d.Takes (delete a b) ↔ a ≤ b ∧ b < d.source.size ∧
      (∀ s ∈ d.deletes, ∀ i, a ≤ i → i < b + 1 → ¬s.Covers i) ∧
        ∀ p ∈ d.inserts, ¬(a < p.1 ∧ p.1 ≤ b) := by
  rw [delete, takes_singleton_iff h, ← d.size_eq]
  constructor
  · rintro ⟨fits, apart⟩
    simp only [Request.edit, Edit.Fits] at fits
    refine ⟨by omega, by omega, fun s hs i lo hi covered => ?_, fun p hp inside => ?_⟩
    · obtain ⟨o, m, he, rfl⟩ := mem_deletes.1 hs
      have := apart _ he
      simp only [Edit.Apart, Request.edit, Span.Covers] at this covered
      omega
    · have := apart _ (mem_inserts.1 hp)
      simp only [Edit.Apart, Request.edit] at this
      omega
  · rintro ⟨le, lt, disjoint, outside⟩
    refine ⟨by simp only [Request.edit, Edit.Fits]; omega, fun e he => ?_⟩
    cases e with
    | insert o t =>
      have := outside (o, t) (mem_inserts.2 he)
      simp only [Edit.Apart, Request.edit] at this ⊢
      omega
    | delete o m =>
      have fits := h.fits _ he
      -- the byte where the later of the two begins
      have := disjoint _ (mem_deletes.2 ⟨o, m, he, rfl⟩) (max a o)
      simp only [Edit.Apart, Edit.Fits, Request.edit, Span.Covers] at this fits ⊢
      omega

/-! ### Any draft -/

theorem WellFormed.separated (h : d.WellFormed) : d.Separated := by
  have fits (s : Span) (hs : s ∈ d.deletes) : s.lo < s.hi ∧ s.hi ≤ d.source.size := by
    obtain ⟨o, n, he, rfl⟩ := mem_deletes.1 hs
    have := h.fits _ he
    rw [← d.size_eq]
    simp only [Edit.Fits] at this ⊢
    omega
  refine ⟨fun s hs => (fits s hs).1, fun s hs => (fits s hs).2, ?_, fun p hp s hs => ?_⟩
  · rw [deletes, List.pairwise_filterMap]
    refine h.apart.imp fun {x y} apart s hs u hu i covered => ?_
    cases x with
    | insert => cases hs
    | delete o m =>
      cases y with
      | insert => cases hu
      | delete p k =>
        obtain rfl := Option.some.inj hs
        obtain rfl := Option.some.inj hu
        simp only [Edit.Apart, Span.Covers] at apart covered
        omega
  · obtain ⟨o, n, he, rfl⟩ := mem_deletes.1 hs
    have := h.apart.forall he (mem_inserts.1 hp) (by simp)
    simp only [Edit.Apart] at this ⊢
    omega

theorem WellFormed.answers (h : d.WellFormed) : d.Answers where
  takes_insert := fun _ _ => takes_insertBefore_iff h
  takes_delete := fun _ _ => takes_delete_iff h
  isDeleted := fun _ => isDeleted_iff h
  taken := fun _ => recordAll_of_takes h
  refused_insert := fun _ _ => recordAll_of_refused h
  refused_delete := fun _ _ => recordAll_of_refused h
  refused_replace := by
    intro a t refused
    obtain ⟨done, rest, split, left, takes⟩ := exists_recorded h (replaceSpan a t)
    have more : rest ≠ [] := fun none => refused (takes.2 none)
    rw [left]
    cases done with
    | nil => exact .inl (withCall_nil d)
    | cons q done =>
      -- only the deletion can be what is refused, and it comes last
      obtain ⟨rfl, deleted⟩ : .insert a.lo t = q ∧ deleteSpan a = done ++ rest :=
        List.cons.inj split
      have short : (deleteSpan a).length ≤ 1 := by
        unfold deleteSpan
        split <;> simp
      have none : done = [] := by
        have := List.length_pos_iff.2 more
        rw [deleted, List.length_append] at short
        exact List.length_eq_zero_iff.1 (by omega)
      exact .inr (by rw [none]; rfl)

/-- After any calls, refused ones included, deletions and insertions are kept apart, and the draft
answers to each call by what it has recorded. -/
theorem afterCalls_answers (source : Text) (calls : List (List Request)) :
    (afterCalls source calls).source = source ∧ (afterCalls source calls).Separated ∧
      (afterCalls source calls).Answers :=
  have wf := wellFormed_afterCalls source calls
  ⟨afterCalls_source source calls, wf.separated, wf.answers⟩

end Draft

end SketchPrep
