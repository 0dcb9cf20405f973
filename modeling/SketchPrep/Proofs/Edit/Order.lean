import Mathlib.Order.Monotone.Basic
import SketchPrep.Proofs.Edit.Lines
import SketchPrep.Proofs.Edit.Offsets

/-!
The map between offsets keeps their order. Main statements: `Recordable.toOutput_eq`, an offset goes
to where it lands; `Recordable.le_toInput_iff`, an offset of the edited text goes back to the last
place where no more is written than what stands before it; `monotone_offsets`, what that says of
going there and back.
-/

namespace SketchPrep.Edit

open Text

/-- A byte of the edited text that is a byte of the source. -/
def Copied (source : Text) (es : List Edit) (j : Nat) : Prop :=
  ∃ i, Survives source es i ∧ landing es i = j

variable {source out : Text} {es : List Edit} {m : OffsetMap} {i j o n p q : Nat}

theorem landing_le_landing (h : p ≤ q) : landing es p ≤ landing es q := by
  rcases Nat.eq_or_lt_of_le h with rfl | lt
  · exact Nat.le_refl _
  · exact Nat.le_trans (landing_le_writtenBefore lt) (writtenBefore_le_landing es q)

theorem writtenBefore_le_writtenBefore (h : p ≤ q) : writtenBefore es p ≤ writtenBefore es q := by
  rcases Nat.eq_or_lt_of_le h with rfl | lt
  · exact Nat.le_refl _
  · exact Nat.le_trans (writtenBefore_le_landing es p) (landing_le_writtenBefore lt)

/-! ### The way there -/

/-- All bytes of a deletion land where it begins. -/
theorem Recordable.landing_deleted (h : Recordable source es) (he : .delete o n ∈ es) (lo : o ≤ i)
    (hi : i < o + n) : landing es i = landing es o := by
  rcases Nat.eq_or_lt_of_le lo with rfl | inside
  · rfl
  · obtain ⟨k, rfl⟩ := Nat.exists_eq_add_of_lt inside
    have nothing (q : Nat) (hlo : o < q) (hhi : q < o + n) : insertedAt es q = [] :=
      insertedAt_eq_nil fun t ht => by
        have apart := h.apart.forall he ht (by simp)
        simp only [Apart] at apart
        omega
    have before : writtenBefore es (o + (k + 1)) = landing es o :=
      @writtenBefore_add es o k true
        (fun q hlo hhi => deletesAt_iff.2 ⟨o, n, he, hlo, by omega⟩)
        fun q hlo hhi => nothing q hlo (by omega)
    rw [Nat.add_assoc, landing, nothing _ (by omega) (by omega), before, size_nil, Nat.add_zero]

theorem Recordable.size_eq (h : Recordable source es) (hm : makeAll? source es = some (out, m)) :
    out.size = landing es source.size := by
  obtain ⟨m', made⟩ := makeAll?_eq h.fits h.apart h.boundaries
  obtain ⟨rfl, -⟩ := Prod.mk.inj (Option.some.inj (hm.symm.trans made))
  exact @size_front source [] es (by simpa using h)

theorem Recordable.toOutput_eq (h : Recordable source es)
    (hm : makeAll? source es = some (out, m)) : m.toOutput i = landing es (min i source.size) := by
  have maps := h.maps hm
  obtain ⟨-, input, output⟩ := covers_makeAll? h hm
  by_cases inside : i < source.size
  · rw [Nat.min_eq_left (Nat.le_of_lt inside)]
    cases gone : deletesAt es i with
    | false => exact maps.toOutput_kept i ⟨inside, gone⟩
    | true =>
      obtain ⟨o, n, he, lo, hi⟩ := deletesAt_iff.1 gone
      rw [maps.toOutput_deleted o n he i lo hi, h.landing_deleted he lo hi]
  · have beyond : source.size ≤ i := Nat.le_of_not_lt inside
    rw [Nat.min_eq_right beyond, OffsetMap.toOutput, if_pos (input ▸ beyond), output, h.size_eq hm]

/-! ### The way back -/

theorem Recordable.toInput_beyond (h : Recordable source es)
    (hm : makeAll? source es = some (out, m)) (hj : out.size ≤ j) : m.toInput j = source.size := by
  obtain ⟨-, input, output⟩ := covers_makeAll? h hm
  rw [OffsetMap.toInput, if_pos (output ▸ hj), input]

/-- A byte of the edited text is written at the place that it goes back to. -/
theorem Recordable.toInput_inside (h : Recordable source es)
    (hm : makeAll? source es = some (out, m)) (hj : j < out.size) :
    m.toInput j ≤ source.size ∧ writtenBefore es (m.toInput j) ≤ j ∧
      j < writtenBefore es (m.toInput j + 1) := by
  obtain ⟨-, -, output⟩ := covers_makeAll? h hm
  rcases (h.maps hm).toInput j (output ▸ hj) with ⟨kept, landed⟩ | inserted
  · have before := writtenBefore_le_landing es (m.toInput j)
    rw [landed] at before
    refine ⟨Nat.le_of_lt kept.1, before, ?_⟩
    rw [writtenBefore_succ, kept.2, landed]
    exact Nat.lt_succ_self j
  · refine ⟨inserted.le_size h, inserted.1, ?_⟩
    rw [writtenBefore_succ]
    exact Nat.lt_of_lt_of_le inserted.2 (Nat.le_add_right _ _)

theorem Recordable.toInput_le (h : Recordable source es)
    (hm : makeAll? source es = some (out, m)) (j : Nat) : m.toInput j ≤ source.size := by
  rcases Nat.lt_or_ge j out.size with inside | beyond
  · exact (h.toInput_inside hm inside).1
  · exact Nat.le_of_eq (h.toInput_beyond hm beyond)

theorem Recordable.le_toInput_iff (h : Recordable source es)
    (hm : makeAll? source es = some (out, m)) (hp : p ≤ source.size) :
    p ≤ m.toInput j ↔ writtenBefore es p ≤ j := by
  rcases Nat.lt_or_ge j out.size with inside | beyond
  · obtain ⟨-, reached, next⟩ := h.toInput_inside hm inside
    constructor
    · intro le
      exact Nat.le_trans (writtenBefore_le_writtenBefore le) reached
    · intro written
      by_contra behind
      have := @writtenBefore_le_writtenBefore es (m.toInput j + 1) p (Nat.lt_of_not_le behind)
      omega
  · rw [h.toInput_beyond hm beyond]
    refine iff_of_true hp ?_
    have whole : landing es p ≤ landing es source.size := landing_le_landing hp
    rw [← h.size_eq hm] at whole
    exact Nat.le_trans (writtenBefore_le_landing es p) (Nat.le_trans whole beyond)

/-! ### There and back -/

/-- No deletion reaches over the end. -/
theorem Recordable.deletesAt_size (h : Recordable source es) :
    deletesAt es source.size = false :=
  deletesAt_eq_false fun o n he => by
    have fits := h.fits _ he
    simp only [Fits] at fits
    omega

theorem Recordable.le_toInput_landing (h : Recordable source es)
    (hm : makeAll? source es = some (out, m)) (hi : i ≤ source.size) :
    i ≤ m.toInput (landing es i) :=
  (h.le_toInput_iff hm hi).2 (writtenBefore_le_landing es i)

theorem Recordable.toInput_landing_iff (h : Recordable source es)
    (hm : makeAll? source es = some (out, m)) (hi : i ≤ source.size) :
    m.toInput (landing es i) = i ↔ deletesAt es i = false := by
  have le := h.le_toInput_landing hm hi
  have top := h.toInput_le hm (landing es i)
  rcases Nat.eq_or_lt_of_le hi with rfl | inside
  · exact iff_of_true (Nat.le_antisymm top le) h.deletesAt_size
  · have next := h.le_toInput_iff (j := landing es i) hm (Nat.succ_le_of_lt inside)
    rw [Nat.succ_eq_add_one, writtenBefore_succ] at next
    cases gone : deletesAt es i <;> simp [gone] at next ⊢ <;> omega

theorem Recordable.le_landing_toInput (h : Recordable source es)
    (hm : makeAll? source es = some (out, m)) (hj : j ≤ out.size) :
    j ≤ landing es (m.toInput j) := by
  rcases Nat.eq_or_lt_of_le hj with rfl | inside
  · rw [h.toInput_beyond hm (Nat.le_refl _), h.size_eq hm]
  · obtain ⟨-, -, next⟩ := h.toInput_inside hm inside
    rw [writtenBefore_succ] at next
    split at next <;> omega

theorem Recordable.landing_toInput_iff (h : Recordable source es)
    (hm : makeAll? source es = some (out, m)) (hj : j ≤ out.size) :
    landing es (m.toInput j) = j ↔ j = out.size ∨ Copied source es j := by
  constructor
  · intro landed
    rcases Nat.eq_or_lt_of_le (h.toInput_le hm j) with last | inside
    · left
      rw [← landed, last, h.size_eq hm]
    · have kept := (h.toInput_landing_iff hm (Nat.le_of_lt inside)).1 (by rw [landed])
      exact .inr ⟨_, ⟨inside, kept⟩, landed⟩
  · rintro (rfl | ⟨i, survives, rfl⟩)
    · rw [h.toInput_beyond hm (Nat.le_refl _), h.size_eq hm]
    · rw [(h.toInput_landing_iff hm (Nat.le_of_lt survives.1)).2 survives.2]

/-- Both ways keep the order of offsets. Going there and back, from either side, never leads before
where it began, and leads there from an end, from a byte that is copied and from one that is not
deleted, and from no other. -/
theorem monotone_offsets (h : Recordable source es) :
    ∃ out m, makeAll? source es = some (out, m) ∧ Monotone m.toOutput ∧ Monotone m.toInput ∧
      (∀ j ≤ out.size, j ≤ m.toOutput (m.toInput j) ∧
        (m.toOutput (m.toInput j) = j ↔ j = out.size ∨ Copied source es j)) ∧
      ∀ i ≤ source.size, i ≤ m.toInput (m.toOutput i) ∧
        (m.toInput (m.toOutput i) = i ↔ i = source.size ∨ deletesAt es i = false) := by
  obtain ⟨m, hm⟩ := makeAll?_eq h.fits h.apart h.boundaries
  refine ⟨_, m, hm, ?_, ?_, fun j hj => ?_, fun i hi => ?_⟩
  · intro i k le
    rw [h.toOutput_eq hm, h.toOutput_eq hm]
    exact landing_le_landing (by omega)
  · intro j k le
    have top := h.toInput_le hm j
    have reached := (h.le_toInput_iff (j := j) hm top).1 (Nat.le_refl _)
    exact (h.le_toInput_iff hm top).2 (Nat.le_trans reached le)
  · rw [h.toOutput_eq hm, Nat.min_eq_left (h.toInput_le hm j)]
    exact ⟨h.le_landing_toInput hm hj, h.landing_toInput_iff hm hj⟩
  · rw [h.toOutput_eq hm, Nat.min_eq_left hi]
    refine ⟨h.le_toInput_landing hm hi, (h.toInput_landing_iff hm hi).trans ?_⟩
    have last : i = source.size → deletesAt es i = false := fun eq => eq ▸ h.deletesAt_size
    exact (or_iff_right_of_imp last).symm

/-- A character of two bytes is replaced, with an insertion on each side: the byte behind it is
copied, the two that are deleted do not come back. -/
theorem monotone_offsets_of_replaced_char :
    let source := ['a', 'é', 'b']
    let es := [.insert 1 ['x'], .delete 1 2, .insert 3 ['y'], .insert 1 ['z']]
    Recordable source es ∧ ∃ out m, makeAll? source es = some (out, m) ∧
      Monotone m.toOutput ∧ Monotone m.toInput ∧ m.toOutput (m.toInput 4) = 4 ∧
      m.toInput (m.toOutput 3) = 3 ∧ 1 < m.toInput (m.toOutput 1) ∧
      2 < m.toInput (m.toOutput 2) := by
  have recordable : Recordable ['a', 'é', 'b']
      [.insert 1 ['x'], .delete 1 2, .insert 3 ['y'], .insert 1 ['z']] :=
    ⟨by decide, by decide, by decide⟩
  obtain ⟨out, m, made, there, back, outside, inside⟩ := monotone_offsets recordable
  have size : out.size = 5 := recordable.size_eq made
  have lost (i : Nat) (hi : i ≤ 4) (gone : ¬(i = 4 ∨ deletesAt
      [.insert 1 ['x'], .delete 1 2, .insert 3 ['y'], .insert 1 ['z']] i = false)) :
      i < m.toInput (m.toOutput i) :=
    Nat.lt_of_le_of_ne (inside i hi).1 fun same => gone ((inside i hi).2.1 same.symm)
  refine ⟨recordable, out, m, made, there, back, ?_, ?_, lost 1 (by decide) (by decide),
    lost 2 (by decide) (by decide)⟩
  · exact (outside 4 (by omega)).2.2 (.inr ⟨3, ⟨by decide, by decide⟩, by decide⟩)
  · exact (inside 3 (by decide)).2.2 (.inr (by decide))

end SketchPrep.Edit
