import Mathlib.Data.List.Pairwise
import SketchPrep.Edit.Draft

/-!
Which edits can stand in one draft. A draft looks only at the nearest deletion when it decides, and
that is enough because of the invariant `Draft.WellFormed`. Main statements:
`record_eq_ok_iff`, an edit is recorded iff it fits the text and stands apart from every edit before
it; `recordAll_of_apart`, so requests that stand apart are recorded all; `wellFormed_recordAll`, no
run of requests leaves the invariant, failed ones included.
-/

namespace SketchPrep

namespace Edit

/-- The edit lies in a text of `size` bytes, and a deletion is not empty. -/
def Fits (size : Nat) : Edit → Prop
  | .insert o _ => o ≤ size
  | .delete o n => 0 < n ∧ o + n ≤ size

/-- No two deletions overlap, and no insertion falls strictly inside a deletion. -/
def Apart : Edit → Edit → Prop
  | .insert _ _, .insert _ _ => True
  | .insert o _, .delete p n | .delete p n, .insert o _ => o ≤ p ∨ p + n ≤ o
  | .delete o m, .delete p n => o + m ≤ p ∨ p + n ≤ o

instance (size : Nat) (e : Edit) : Decidable (e.Fits size) :=
  match e with
  | .insert _ _ => inferInstanceAs (Decidable (_ ≤ _))
  | .delete _ _ => inferInstanceAs (Decidable (_ ∧ _))

instance (a b : Edit) : Decidable (a.Apart b) :=
  match a, b with
  | .insert _ _, .insert _ _ => inferInstanceAs (Decidable True)
  | .insert _ _, .delete _ _ => inferInstanceAs (Decidable (_ ∨ _))
  | .delete _ _, .insert _ _ => inferInstanceAs (Decidable (_ ∨ _))
  | .delete _ _, .delete _ _ => inferInstanceAs (Decidable (_ ∨ _))

theorem Apart.symm {a b : Edit} (h : a.Apart b) : b.Apart a := by
  cases a <;> cases b <;> simp only [Apart] at h ⊢ <;> omega

end Edit

instance : Std.Symm Edit.Apart := ⟨fun _ _ => Edit.Apart.symm⟩

namespace Draft

/-- The edit that a request asks for. -/
def Request.edit : Request → Edit
  | .insert o t => .insert o t
  | .delete r => .delete r.lo (r.hi - r.lo)

structure WellFormed (d : Draft) : Prop where
  fits : ∀ e ∈ d.edits, e.Fits d.size
  apart : d.edits.Pairwise Edit.Apart

theorem wellFormed_ofSource (source : Text) : (ofSource source).WellFormed :=
  ⟨by simp [ofSource], by simp [ofSource]⟩

variable {d : Draft}

theorem mem_deletes {s : Span} : s ∈ d.deletes ↔ ∃ o n, .delete o n ∈ d.edits ∧ s = ⟨o, o + n⟩ := by
  simp only [deletes, List.mem_filterMap]
  constructor
  · rintro ⟨e, he, hs⟩
    cases e with
    | insert => simp [Edit.deleted?] at hs
    | delete o n => exact ⟨o, n, he, by simpa [Edit.deleted?] using hs.symm⟩
  · rintro ⟨o, n, he, rfl⟩
    exact ⟨_, he, rfl⟩

theorem mem_inserts {p : Nat × Text} : p ∈ d.inserts ↔ .insert p.1 p.2 ∈ d.edits := by
  simp only [inserts, List.mem_filterMap]
  constructor
  · rintro ⟨e, he, hp⟩
    cases e with
    | insert o t => simp only [Edit.inserted?, Option.some.injEq] at hp; subst hp; exact he
    | delete => simp [Edit.inserted?] at hp
  · intro he
    exact ⟨_, he, rfl⟩

/-! ### The last deletion before an offset -/

/-- The range that starts last is one of the ranges, and none starts behind it. -/
theorem lastStarting?_eq_some {rs : List Span} {r : Span} (h : lastStarting? rs = some r) :
    r ∈ rs ∧ ∀ s ∈ rs, s.lo ≤ r.lo := by
  induction rs generalizing r with
  | nil => simp [lastStarting?] at h
  | cons a rs ih =>
    unfold lastStarting? at h
    cases hl : lastStarting? rs with
    | none =>
      have empty : rs = [] := by
        cases rs with
        | nil => rfl
        | cons b rs => unfold lastStarting? at hl; split at hl <;> simp at hl
      simp_all
    | some e =>
      have he := ih hl
      simp only [hl, Option.some.injEq] at h
      split at h <;> grind

theorem lastStarting?_eq_none {rs : List Span} : lastStarting? rs = none ↔ rs = [] := by
  cases rs with
  | nil => simp [lastStarting?]
  | cons a rs =>
    unfold lastStarting?
    split <;> simp

theorem mem_of_deleteBefore? {n : Nat} {l : Span} (h : d.deleteBefore? n = some l) :
    l ∈ d.deletes ∧ l.lo < n := by
  obtain ⟨mem, -⟩ := lastStarting?_eq_some h
  simpa using mem

/-- The deletions that start before an offset end before another one if the last of them does: the
others end before that one starts. -/
theorem forall_deleteBefore?_iff (h : d.WellFormed) {n m : Nat} :
    (∀ l, d.deleteBefore? n = some l → l.hi ≤ m) ↔ ∀ s ∈ d.deletes, s.lo < n → s.hi ≤ m := by
  constructor
  · intro hlast s hs hlo
    have mem : s ∈ d.deletes.filter (·.lo < n) := by simp [hs, hlo]
    obtain ⟨l, hl⟩ : ∃ l, d.deleteBefore? n = some l := by
      rw [← Option.ne_none_iff_exists', deleteBefore?, Ne, lastStarting?_eq_none]
      exact List.ne_nil_of_mem mem
    have hle := hlast l hl
    have hsl := (lastStarting?_eq_some hl).2 s mem
    obtain ⟨p, m, hp, rfl⟩ := mem_deletes.1 (mem_of_deleteBefore? hl).1
    obtain ⟨o, k, ho, rfl⟩ := mem_deletes.1 hs
    by_cases same : Edit.delete o k = .delete p m
    · cases same
      exact hle
    · have apart := h.apart.forall ho hp same
      have fits := h.fits _ hp
      have fits' := h.fits _ ho
      simp only [Edit.Apart, Edit.Fits] at apart fits fits' hsl hle ⊢
      omega
  · intro hall l hl
    obtain ⟨mem, hlo⟩ := mem_of_deleteBefore? hl
    exact hall l mem hlo

theorem deleteAround?_eq_none (h : d.WellFormed) {o : Nat} :
    d.deleteAround? o = none ↔ ∀ s ∈ d.deletes, o ≤ s.lo ∨ s.hi ≤ o := by
  have last : d.deleteAround? o = none ↔ ∀ l, d.deleteBefore? o = some l → l.hi ≤ o := by
    simp [deleteAround?, Option.filter_eq_none_iff]
  rw [last, forall_deleteBefore?_iff h]
  refine forall₂_congr fun s hs => ?_
  omega

theorem isDeleted_iff (h : d.WellFormed) {n : Nat} :
    d.isDeleted n ↔ ∃ s ∈ d.deletes, s.lo ≤ n ∧ n < s.hi := by
  have around : (d.deleteAround? n).isSome ↔ ∃ s ∈ d.deletes, s.lo < n ∧ n < s.hi := by
    rw [← Option.ne_none_iff_isSome, Ne, deleteAround?_eq_none h]
    simp
  simp only [isDeleted, Bool.or_eq_true, around, List.any_eq_true, decide_eq_true_eq]
  constructor
  · rintro (⟨s, hs, lo, hi⟩ | ⟨s, hs, rfl⟩)
    · exact ⟨s, hs, Nat.le_of_lt lo, hi⟩
    · obtain ⟨o, k, he, rfl⟩ := mem_deletes.1 hs
      have := (h.fits _ he).1
      exact ⟨_, hs, Nat.le_refl _, by simp only; omega⟩
  · rintro ⟨s, hs, lo, hi⟩
    rcases Nat.eq_or_lt_of_le lo with here | before
    · exact .inr ⟨s, hs, here⟩
    · exact .inl ⟨s, hs, before, hi⟩

/-! ### When an edit is recorded -/

theorem insertFault?_eq_none (h : d.WellFormed) {o : Nat} {t : Text} :
    d.insertFault? o = none ↔
      (Edit.insert o t).Fits d.size ∧ ∀ e ∈ d.edits, e.Apart (.insert o t) := by
  have apart : (∀ e ∈ d.edits, e.Apart (.insert o t)) ↔ d.deleteAround? o = none := by
    rw [deleteAround?_eq_none h]
    constructor
    · intro hall s hs
      obtain ⟨p, n, he, rfl⟩ := mem_deletes.1 hs
      exact hall _ he
    · intro hall e he
      cases e with
      | insert => trivial
      | delete p n => exact hall _ (mem_deletes.2 ⟨p, n, he, rfl⟩)
  rw [apart, insertFault?]
  by_cases hs : d.size < o
  · simp [hs, Edit.Fits, Nat.not_le_of_lt hs]
  · simp [hs, Edit.Fits, Nat.le_of_not_lt hs]

theorem covered?_eq_none {r : Span} :
    deleteFault?.covered? d r = none ↔ ∀ p ∈ d.inserts, p.1 ≤ r.lo ∨ r.hi ≤ p.1 := by
  simp only [deleteFault?.covered?, Option.map_eq_none_iff, List.min?_eq_none_iff,
    List.filter_eq_nil_iff, List.mem_map, Bool.and_eq_true, decide_eq_true_eq, not_and, Nat.not_lt]
  grind

/-- A range overlaps no deletion if it does not overlap the last that starts before its end. -/
theorem overlap_iff (h : d.WellFormed) {r : Span} :
    (∀ s, d.deleteBefore? r.hi = some s → s.hi ≤ r.lo) ↔
      ∀ s ∈ d.deletes, s.hi ≤ r.lo ∨ r.hi ≤ s.lo := by
  rw [forall_deleteBefore?_iff h]
  refine forall₂_congr fun s hs => ?_
  omega

theorem deleteFault?_eq_none (h : d.WellFormed) {r : Span} :
    d.deleteFault? r = none ↔ (Request.delete r).edit.Fits d.size ∧
      ∀ e ∈ d.edits, e.Apart (Request.delete r).edit := by
  by_cases hr : r.hi ≤ r.lo ∨ d.size < r.hi
  · have bad : ¬(Request.delete r).edit.Fits d.size := by simp only [Request.edit, Edit.Fits]; omega
    simp [deleteFault?, hr, bad]
  · have lt : r.lo < r.hi := by omega
    have fits : (Request.delete r).edit.Fits d.size := by simp only [Request.edit, Edit.Fits]; omega
    have apart : (∀ e ∈ d.edits, e.Apart (Request.delete r).edit) ↔
        (∀ s ∈ d.deletes, s.hi ≤ r.lo ∨ r.hi ≤ s.lo) ∧
          ∀ p ∈ d.inserts, p.1 ≤ r.lo ∨ r.hi ≤ p.1 := by
      constructor
      · intro hall
        refine ⟨fun s hs => ?_, fun p hp => ?_⟩
        · obtain ⟨o, n, he, rfl⟩ := mem_deletes.1 hs
          have := hall _ he
          simp only [Edit.Apart, Request.edit] at this ⊢
          omega
        · have := hall _ (mem_inserts.1 hp)
          simp only [Edit.Apart, Request.edit] at this ⊢
          omega
      · rintro ⟨hdel, hins⟩ e he
        cases e with
        | insert o t =>
          have := hins (o, t) (mem_inserts.2 he)
          simp only [Edit.Apart, Request.edit] at this ⊢
          omega
        | delete o n =>
          have := hdel _ (mem_deletes.2 ⟨o, n, he, rfl⟩)
          simp only [Edit.Apart, Request.edit] at this ⊢
          omega
    simp only [fits, apart, true_and, ← overlap_iff h, ← covered?_eq_none]
    simp only [deleteFault?, Bool.or_eq_true, decide_eq_true_eq, hr, if_false]
    cases hl : d.deleteBefore? r.hi with
    | none => simp
    | some s =>
      by_cases hs : r.lo < s.hi
      · simp [hs, Nat.not_le_of_lt hs]
      · simp [hs, Nat.le_of_not_lt hs]

/-- An edit is recorded iff it fits the text and stands apart from every edit before it; it then
comes last. -/
theorem record_eq_ok_iff (h : d.WellFormed) {q : Request} {next : Draft} :
    d.record q = .ok next ↔ (q.edit.Fits d.size ∧ ∀ e ∈ d.edits, e.Apart q.edit) ∧
      next = { d with edits := d.edits ++ [q.edit] } := by
  cases q with
  | insert o t =>
    rw [show (Request.insert o t).edit = .insert o t from rfl, ← insertFault?_eq_none h]
    simp only [record]
    cases d.insertFault? o <;> simp [eq_comm]
  | delete r =>
    rw [← deleteFault?_eq_none h]
    simp only [record]
    cases d.deleteFault? r <;> simp [Request.edit, eq_comm]

theorem WellFormed.record (h : d.WellFormed) {q : Request} {next : Draft}
    (hq : d.record q = .ok next) : next.WellFormed := by
  obtain ⟨⟨fits, apart⟩, rfl⟩ := (record_eq_ok_iff h).1 hq
  refine ⟨?_, ?_⟩
  · intro e he
    rcases List.mem_append.1 he with he | he
    · exact h.fits e he
    · rw [List.mem_singleton.1 he]
      exact fits
  · exact List.pairwise_append.2 ⟨h.apart, List.pairwise_singleton .., by simpa using apart⟩

/-! ### Lists of requests -/

theorem recordAll_cons_of_ok {q : Request} {qs : List Request} {next : Draft}
    (h : d.record q = .ok next) : d.recordAll (q :: qs) = next.recordAll qs := by
  simp [recordAll, h]

theorem wellFormed_recordAll (h : d.WellFormed) (qs : List Request) :
    (d.recordAll qs).1.WellFormed := by
  induction qs generalizing d with
  | nil => exact h
  | cons q qs ih =>
    unfold recordAll
    split
    · exact ih (h.record ‹_›)
    · exact h

theorem recordAll_source (d : Draft) (qs : List Request) :
    (d.recordAll qs).1.source = d.source := by
  induction qs generalizing d with
  | nil => rfl
  | cons q qs ih =>
    unfold recordAll
    split
    · rename_i next hq
      rw [ih next]
      cases q <;> simp only [record] at hq <;> split at hq <;> cases hq <;> rfl
    · rfl

/-- Requests that fit the text and stand apart from each other and from what is recorded are
recorded all. -/
theorem recordAll_of_apart (h : d.WellFormed) {qs : List Request}
    (fits : ∀ q ∈ qs, q.edit.Fits d.size)
    (apart : (d.edits ++ qs.map Request.edit).Pairwise Edit.Apart) :
    d.recordAll qs = ({ d with edits := d.edits ++ qs.map Request.edit }, none) := by
  induction qs generalizing d with
  | nil => simp [recordAll]
  | cons q qs ih =>
    obtain ⟨-, -, cross⟩ := List.pairwise_append.1 apart
    have hq : d.record q = .ok { d with edits := d.edits ++ [q.edit] } :=
      (record_eq_ok_iff h).2 ⟨⟨fits q (by simp), fun e he => cross e he _ (by simp)⟩, rfl⟩
    rw [recordAll_cons_of_ok hq, ih (h.record hq) (fun p hp => fits p (by simp [hp]))
      (by simpa using apart)]
    simp

/-- The converse of `recordAll_of_apart`. -/
theorem apart_of_recordAll (h : d.WellFormed) {qs : List Request} {next : Draft}
    (hr : d.recordAll qs = (next, none)) :
    (∀ q ∈ qs, q.edit.Fits d.size) ∧
      next = { d with edits := d.edits ++ qs.map Request.edit } := by
  induction qs generalizing d with
  | nil => simpa [recordAll, eq_comm] using hr
  | cons q qs ih =>
    unfold recordAll at hr
    split at hr
    · rename_i mid hq
      obtain ⟨fits, rfl⟩ := ih (h.record hq) hr
      obtain ⟨⟨qfits, -⟩, rfl⟩ := (record_eq_ok_iff h).1 hq
      exact ⟨by simpa using ⟨qfits, fits⟩, by simp⟩
    · simp at hr

end Draft

end SketchPrep
