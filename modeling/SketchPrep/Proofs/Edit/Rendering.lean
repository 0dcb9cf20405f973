import SketchPrep.Edit.OffsetMap
import SketchPrep.Proofs.Draft.WellFormed
import SketchPrep.Proofs.Text.Boundary

/-!
Edits made in one pass over their stable sort. Main statement: `makeAll?_eq`, the pass writes
`renderFrom`, which goes through the source character by character.

`renderFrom` has written the insertions at `pos` before it begins there, so a pass that stops at
`pos` and goes on from it needs no case for an insertion at the place of the cut.
-/

namespace SketchPrep

open Text

namespace Edit

@[simp] theorem offset_insert (o : Nat) (t : Text) : (insert o t).offset = o := rfl

@[simp] theorem offset_delete (o n : Nat) : (delete o n).offset = o := rfl

@[simp] theorem stop_insert (o : Nat) (t : Text) : (insert o t).stop = o := rfl

@[simp] theorem stop_delete (o n : Nat) : (delete o n).stop = o + n := rfl

theorem offset_le_stop (e : Edit) : e.offset ≤ e.stop := by cases e <;> simp

theorem precedes_iff {a b : Edit} :
    a.precedes b ↔ a.offset < b.offset ∨ a.offset = b.offset ∧ (a.isInsert ∨ ¬b.isInsert) := by
  simp [precedes]

/-- The texts that `edits` insert at `point`, one after the other. -/
def insertedAt (edits : List Edit) (point : Nat) : Text :=
  ((edits.filterMap inserted?).filter (·.1 = point)).flatMap Prod.snd

/-- Whether the edit is an insertion at `point`. -/
def insertsAt (point : Nat) (e : Edit) : Bool := e.inserted?.any (·.1 = point)

/-- Whether a deletion of `edits` covers the byte at `offset`. -/
def deletesAt (edits : List Edit) (offset : Nat) : Bool :=
  (edits.filterMap deleted?).any fun d => d.lo ≤ offset && offset < d.hi

/-- The text that `edits` make of a source whose rest begins at `pos`, from behind the insertions
there. -/
def renderFrom (edits : List Edit) : Nat → Text → Text
  | _, [] => []
  | pos, c :: cs =>
    (if deletesAt edits pos then [] else [c]) ++ insertedAt edits (pos + c.utf8Size) ++
      renderFrom edits (pos + c.utf8Size) cs

variable {es fs : List Edit} {pos : Nat}

theorem insertedAt_eq_nil {p : Nat} (h : ∀ t, .insert p t ∉ es) : insertedAt es p = [] := by
  have none_there : (es.filterMap inserted?).filter (·.1 = p) = [] := by
    rw [List.filter_eq_nil_iff]
    rintro ⟨o, t⟩ hm
    obtain ⟨e, he, hi⟩ := List.mem_filterMap.1 hm
    cases e with
    | insert o' t' =>
      simp only [inserted?, Option.some.injEq, Prod.mk.injEq] at hi
      obtain ⟨rfl, rfl⟩ := hi
      simp only [decide_eq_true_eq]
      rintro rfl
      exact h _ he
    | delete => simp [inserted?] at hi
  rw [insertedAt, none_there]
  rfl

/-- Only the insertions there count. -/
theorem insertedAt_filter (es : List Edit) (p : Nat) :
    insertedAt (es.filter (insertsAt p)) p = insertedAt es p := by
  have kept : ((es.filter (insertsAt p)).filterMap inserted?).filter (·.1 = p) =
      (es.filterMap inserted?).filter (·.1 = p) := by
    rw [List.filter_filterMap, List.filterMap_filter, List.filter_filterMap]
    congr 1
    funext e
    cases e <;> simp [insertsAt, inserted?, Option.filter]
  rw [insertedAt, kept, insertedAt]

theorem insertedAt_congr {p : Nat} (h : es.filter (insertsAt p) = fs.filter (insertsAt p)) :
    insertedAt es p = insertedAt fs p := by
  rw [← insertedAt_filter es, h, insertedAt_filter]

theorem deletesAt_iff {q : Nat} :
    deletesAt es q ↔ ∃ o n, .delete o n ∈ es ∧ o ≤ q ∧ q < o + n := by
  simp only [deletesAt, List.any_eq_true, List.mem_filterMap, Bool.and_eq_true, decide_eq_true_eq]
  constructor
  · rintro ⟨d, ⟨e, he, hd⟩, hlo, hhi⟩
    cases e with
    | insert => simp [deleted?] at hd
    | delete o n =>
      simp only [deleted?, Option.some.injEq] at hd
      subst hd
      exact ⟨o, n, he, hlo, hhi⟩
  · rintro ⟨o, n, he, hlo, hhi⟩
    exact ⟨⟨o, o + n⟩, ⟨_, he, rfl⟩, hlo, hhi⟩

theorem deletesAt_eq_false {q : Nat} (h : ∀ o n, .delete o n ∈ es → o + n ≤ q ∨ q < o) :
    deletesAt es q = false := by
  rw [← Bool.not_eq_true, deletesAt_iff]
  rintro ⟨o, n, he, hlo, hhi⟩
  have := h o n he
  omega

theorem insertedAt_append (es fs : List Edit) (p : Nat) :
    insertedAt (es ++ fs) p = insertedAt es p ++ insertedAt fs p := by
  simp only [insertedAt, List.filterMap_append, List.filter_append, List.flatMap_append]

theorem deletesAt_append (es fs : List Edit) (p : Nat) :
    deletesAt (es ++ fs) p = (deletesAt es p || deletesAt fs p) := by
  simp only [deletesAt, List.filterMap_append, List.any_append]

theorem insertedAt_cons (e : Edit) (es : List Edit) (p : Nat) :
    insertedAt (e :: es) p = insertedAt [e] p ++ insertedAt es p := by
  rw [← List.singleton_append, insertedAt_append]

@[simp] theorem insertedAt_insert_self (o : Nat) (t : Text) : insertedAt [.insert o t] o = t := by
  simp [insertedAt, inserted?]

theorem insertedAt_insert_of_ne {o q : Nat} (h : o ≠ q) (t : Text) :
    insertedAt [.insert o t] q = [] := by
  refine insertedAt_eq_nil fun t' ht => ?_
  obtain ⟨here, -⟩ := Edit.insert.inj (List.mem_singleton.1 ht)
  exact h here.symm

theorem renderFrom_congr {cs : Text} (hd : ∀ q, pos ≤ q → deletesAt es q = deletesAt fs q)
    (hi : ∀ q, pos < q → insertedAt es q = insertedAt fs q) :
    renderFrom es pos cs = renderFrom fs pos cs := by
  induction cs generalizing pos with
  | nil => rfl
  | cons c cs ih =>
    have hc := c.utf8Size_pos
    rw [renderFrom, renderFrom, hd pos (Nat.le_refl _), hi _ (by omega),
      ih (fun q hq => hd q (by omega)) (fun q hq => hi q (by omega))]

/-- A stretch that is kept or deleted as a whole, with no insertion inside. -/
theorem renderFrom_append {part rest : Text} {gone : Bool}
    (hd : ∀ q, pos ≤ q → q < pos + part.size → deletesAt es q = gone)
    (hi : ∀ q, pos < q → q < pos + part.size → insertedAt es q = []) :
    renderFrom es pos (part ++ rest) =
      (if gone then [] else part) ++ (if part = [] then [] else insertedAt es (pos + part.size)) ++
        renderFrom es (pos + part.size) rest := by
  induction part generalizing pos with
  | nil => simp
  | cons c part ih =>
    have hc := c.utf8Size_pos
    have here := hd pos (Nat.le_refl _) (by simp only [size_cons]; omega)
    have behind := @ih (pos + c.utf8Size)
      (fun q hq hl => hd q (by omega) (by simp only [size_cons]; omega))
      (fun q hq hl => hi q (by omega) (by simp only [size_cons]; omega))
    rw [List.cons_append, renderFrom, behind, here]
    cases part with
    | nil => cases gone <;> simp
    | cons d part =>
      have hd := d.utf8Size_pos
      have inside := hi (pos + c.utf8Size) (by omega) (by simp only [size_cons]; omega)
      rw [inside]
      cases gone <;> simp [Nat.add_assoc]

/-- Past all edits the rest of the source is kept. -/
theorem renderFrom_of_le {rest : Text} (h : ∀ e ∈ es, e.stop ≤ pos) :
    renderFrom es pos rest = rest := by
  have kept := @renderFrom_append es pos rest [] false
    (fun q hq _ => deletesAt_eq_false fun o n he =>
      .inl (by have := h _ he; rw [stop_delete] at this; omega))
    (fun q hq _ => insertedAt_eq_nil fun t he => by have := h _ he; rw [stop_insert] at this; omega)
  have last : insertedAt es (pos + rest.size) = [] ∨ rest = [] := by
    by_cases hr : rest = []
    · exact .inr hr
    · left
      have : rest.size ≠ 0 := by simpa [size_eq_zero_iff] using hr
      exact insertedAt_eq_nil fun t he => by have := h _ he; rw [stop_insert] at this; omega
  rcases last with hl | rfl
  · simpa [hl, renderFrom] using kept
  · rfl

theorem renderFrom_insert {o : Nat} {t cs : Text} (h : o ≤ pos) :
    renderFrom (.insert o t :: es) pos cs = renderFrom es pos cs :=
  renderFrom_congr (fun q _ => by simp [deletesAt, deleted?])
    (fun q hq => by rw [insertedAt_cons, insertedAt_insert_of_ne (by omega), List.nil_append])

/-! ### Up to an offset -/

theorem renderFrom_append_rest (es : List Edit) (pos : Nat) (a rest : Text) :
    renderFrom es pos (a ++ rest) = renderFrom es pos a ++ renderFrom es (pos + a.size) rest := by
  induction a generalizing pos with
  | nil => rfl
  | cons c a ih =>
    rw [List.cons_append, renderFrom, ih, renderFrom, size_cons, Nat.add_assoc]
    simp only [List.append_assoc]

/-- The edited text up to the first character behind `a`. -/
def front (es : List Edit) (a : Text) : Text := insertedAt es 0 ++ renderFrom es 0 a

theorem front_append (es : List Edit) (a rest : Text) :
    front es (a ++ rest) = front es a ++ renderFrom es a.size rest := by
  rw [front, renderFrom_append_rest, ← List.append_assoc, Nat.zero_add]
  rfl

/-- What is inserted in front of the source begins the edited text. -/
theorem front_cons_insert (es : List Edit) (t a : Text) :
    front (.insert 0 t :: es) a = t ++ front es a := by
  rw [front, insertedAt_cons, insertedAt_insert_self, renderFrom_insert (Nat.le_refl 0),
    List.append_assoc, front]

/-- Before all edits the source is kept. -/
theorem front_eq_append {a : Text} (h : ∀ e ∈ es, a.size ≤ e.offset) :
    front es a = a ++ insertedAt es a.size := by
  have kept := @renderFrom_append es 0 a [] false
    (fun q _ hq => deletesAt_eq_false fun o n he =>
      .inr (by have := h _ he; rw [offset_delete] at this; omega))
    (fun q _ hq => insertedAt_eq_nil fun t he => by
      have := h _ he
      rw [offset_insert] at this
      omega)
  rw [List.append_nil, Nat.zero_add, renderFrom, List.append_nil] at kept
  rw [front, kept]
  by_cases ha : a = []
  · subst ha
    simp
  · have start : insertedAt es 0 = [] := insertedAt_eq_nil fun t he => by
      have := h _ he
      rw [offset_insert] at this
      exact ha (size_eq_zero_iff.1 (Nat.le_zero.1 this))
    simp [start, ha]

theorem renderFrom_concat_insert (es : List Edit) {pos stop : Nat} {cs : Text} (t : Text)
    (hstop : stop = pos + cs.size) : renderFrom (es ++ [.insert stop t]) pos cs =
      renderFrom es pos cs ++ if cs = [] then [] else t := by
  induction cs generalizing pos with
  | nil => rfl
  | cons c cs ih =>
    rw [size_cons] at hstop
    have kept : deletesAt (es ++ [.insert stop t]) pos = deletesAt es pos := by
      rw [deletesAt_append]
      exact Bool.or_false _
    rw [renderFrom, renderFrom, kept, ih (by omega), insertedAt_append]
    cases cs with
    | nil =>
      rw [hstop, size_nil, Nat.add_zero]
      simp [renderFrom]
    | cons d cs =>
      have hd := d.utf8Size_pos
      rw [size_cons] at hstop
      have apart : insertedAt [.insert stop t] (pos + c.utf8Size) = [] :=
        insertedAt_insert_of_ne (by omega) t
      simp [apart]

/-- What is inserted at the end of the source ends the edited text. -/
theorem front_concat_insert (es : List Edit) (source t : Text) :
    front (es ++ [.insert source.size t]) source = front es source ++ t := by
  rw [front, renderFrom_concat_insert es t (Nat.zero_add _).symm, insertedAt_append, front]
  by_cases hs : source = []
  · subst hs
    simp [renderFrom]
  · have size : source.size ≠ 0 := fun hzero => hs (size_eq_zero_iff.1 hzero)
    have apart : insertedAt [.insert source.size t] 0 = [] := insertedAt_insert_of_ne size t
    simp [apart, hs]

/-! ### One pass over sorted edits -/

/-- The edits stand apart and go from left to right. -/
structure InOrder (source : Text) (es : List Edit) : Prop where
  fits : ∀ e ∈ es, e.Fits source.size
  apart : es.Pairwise Apart
  sorted : es.Pairwise (precedes · ·)
  boundaries : ∀ e ∈ es, IsBoundary source e.offset ∧ IsBoundary source e.stop

theorem InOrder.tail {source : Text} {e : Edit} (h : InOrder source (e :: es)) :
    InOrder source es :=
  ⟨fun x hx => h.fits x (.tail _ hx), h.apart.tail, h.sorted.tail,
    fun x hx => h.boundaries x (.tail _ hx)⟩

/-- Once an edit is made, the ones behind it begin where it stops or later. -/
theorem InOrder.stop_le {source : Text} {e : Edit} (h : InOrder source (e :: es)) :
    ∀ x ∈ es, e.stop ≤ x.offset := by
  intro x hx
  have apart := (List.pairwise_cons.1 h.apart).1 x hx
  have sorted := (List.pairwise_cons.1 h.sorted).1 x hx
  have fits := h.fits x (.tail _ hx)
  rw [precedes_iff] at sorted
  cases e <;> cases x <;> simp [Apart, Fits, isInsert] at apart sorted fits ⊢ <;> omega

/-- Before the first edit the source is kept. -/
theorem renderFrom_kept {part rest : Text} {e : Edit} {source : Text}
    (h : InOrder source (e :: es)) (hp : pos + part.size = e.offset) :
    insertedAt (e :: es) pos ++ renderFrom (e :: es) pos (part ++ rest) =
      part ++ insertedAt (e :: es) e.offset ++ renderFrom (e :: es) e.offset rest := by
  have before : ∀ x ∈ e :: es, e.offset ≤ x.offset := by
    intro x hx
    rcases List.mem_cons.1 hx with rfl | hx
    · exact Nat.le_refl _
    · exact Nat.le_trans e.offset_le_stop (h.stop_le x hx)
  have no_insert : ∀ q, q < e.offset → insertedAt (e :: es) q = [] := fun q hq =>
    insertedAt_eq_nil fun t he => by have := before _ he; rw [offset_insert] at this; omega
  rw [renderFrom_append
    (fun q _ hq => deletesAt_eq_false fun o n he => by
      have := before _ he
      rw [offset_delete] at this
      omega)
    (fun q _ hq => no_insert q (by omega)), hp]
  by_cases hpart : part = []
  · subst hpart
    simp [← hp]
  · have : part.size ≠ 0 := by simpa [size_eq_zero_iff] using hpart
    simp [hpart, no_insert pos (by omega)]

theorem renderFrom_delete {o n : Nat} {cs : Text} (h : o + n ≤ pos) :
    renderFrom (.delete o n :: es) pos cs = renderFrom es pos cs :=
  renderFrom_congr
    (fun q hq => by
      rw [Bool.eq_iff_iff, deletesAt_iff, deletesAt_iff]
      simp only [List.mem_cons, delete.injEq]
      grind)
    (fun q _ => by rw [insertedAt_cons]; simp [insertedAt_eq_nil])

theorem InOrder.no_insert {source : Text} {o n : Nat} (h : InOrder source (.delete o n :: es)) :
    insertedAt (.delete o n :: es) o = [] := by
  refine insertedAt_eq_nil fun t ht => ?_
  rcases List.mem_cons.1 ht with ht | ht
  · cases ht
  · have le := h.stop_le _ ht
    have fits := h.fits _ (.head _)
    simp [Fits] at le fits
    omega

theorem InOrder.renderFrom_gone {source gone rest : Text} {o n : Nat}
    (h : InOrder source (.delete o n :: es)) (hg : o + gone.size = o + n) :
    renderFrom (.delete o n :: es) o (gone ++ rest) =
      insertedAt es (o + n) ++ renderFrom es (o + n) rest := by
  have fits := h.fits _ (.head _)
  simp only [Fits] at fits
  have hne : gone ≠ [] := by
    rintro rfl
    simp at hg
    omega
  rw [renderFrom_append
    (fun q hlo hhi => deletesAt_iff.2 ⟨o, n, .head _, hlo, by omega⟩)
    (fun q hlo hhi => insertedAt_eq_nil fun t ht => by
      rcases List.mem_cons.1 ht with ht | ht
      · cases ht
      · have := h.stop_le _ ht
        simp at this
        omega), hg, renderFrom_delete (Nat.le_refl _)]
  have none_here : insertedAt [.delete o n] (o + n) = [] := insertedAt_eq_nil (by simp)
  rw [insertedAt_cons, none_here]
  simp [hne]

theorem copy?_append {a part rest : Text} {out : Nat} :
    ∃ segments, copy? (a ++ part ++ rest) a.size out (a.size + part.size) =
      some (part, segments) := by
  rw [copy?]
  by_cases hp : part = []
  · subst hp
    simp
  · have : part.size ≠ 0 := by simpa [size_eq_zero_iff] using hp
    rw [if_pos (by omega), slice?_append]
    exact ⟨_, rfl⟩

/-- The pass from the end of `a` on. -/
theorem makeFrom?_eq {a rest : Text} {out : Nat} (h : InOrder (a ++ rest) es)
    (ha : ∀ e ∈ es, a.size ≤ e.offset) :
    ∃ segments, makeFrom? (a ++ rest) a.size out es =
      some (insertedAt es a.size ++ renderFrom es a.size rest, segments) := by
  induction es generalizing a rest out with
  | nil =>
    obtain ⟨segments, hc⟩ := @copy?_append a rest [] out
    rw [makeFrom?, renderFrom_of_le (by simp)]
    exact ⟨segments, by simpa [insertedAt] using hc⟩
  | cons e es ih =>
    obtain ⟨hlo, hhi⟩ := h.boundaries e (.head _)
    obtain ⟨part, rest, rfl, hp⟩ := isBoundary_append_right hlo (ha e (.head _))
    obtain ⟨segments, hc⟩ := @copy?_append a part rest out
    rw [renderFrom_kept h hp]
    cases e with
    | insert o t =>
      rw [offset_insert] at hp
      have next : InOrder ((a ++ part) ++ rest) es := by simpa using h.tail
      obtain ⟨others, hr⟩ := @ih (a ++ part) rest (out + part.size + t.size) next
        (fun x hx => by have := h.stop_le x hx; simp at this ⊢; omega)
      simp only [size_append, hp, List.append_assoc] at hr hc
      have hmax : max a.size o = o := by omega
      simp only [makeFrom?, offset_insert, List.append_assoc, hc, hr, hmax, Option.bind_eq_bind,
        Option.bind_some, Option.pure_def]
      refine ⟨_, congrArg (fun x => some (x, _)) ?_⟩
      rw [insertedAt_cons, insertedAt_insert_self, renderFrom_insert (Nat.le_refl _)]
      simp
    | delete o n =>
      simp only [offset_delete, stop_delete] at hp hhi
      obtain ⟨gone, rest, rfl, hg⟩ := isBoundary_append_right
          (by simpa using hhi : IsBoundary ((a ++ part) ++ rest) (o + n))
        (by simp only [size_append]; omega)
      rw [size_append, hp] at hg
      have hsize : (a ++ part ++ gone).size = o + n := by simp only [size_append]; omega
      have next : InOrder ((a ++ part ++ gone) ++ rest) es := by simpa using h.tail
      obtain ⟨others, hr⟩ := @ih (a ++ part ++ gone) rest (out + part.size) next
        (fun x hx => by have := h.stop_le x hx; simp at this ⊢; omega)
      rw [hsize] at hr
      simp only [hp, List.append_assoc] at hr hc
      simp only [makeFrom?, offset_delete, List.append_assoc, hc, hr, Option.bind_eq_bind,
        Option.bind_some, Option.pure_def]
      refine ⟨_, congrArg (fun x => some (x, _)) ?_⟩
      rw [h.no_insert, h.renderFrom_gone hg]
      simp

/-! ### The stable sort -/

theorem precedes_trans (a b c : Edit) (hab : a.precedes b) (hbc : b.precedes c) :
    a.precedes c := by
  rw [precedes_iff] at *
  grind

theorem precedes_total (a b : Edit) : a.precedes b || b.precedes a := by
  rw [Bool.or_eq_true, precedes_iff, precedes_iff]
  grind

theorem deletesAt_perm {q : Nat} (h : es.Perm fs) : deletesAt es q = deletesAt fs q := by
  rw [Bool.eq_iff_iff, deletesAt_iff, deletesAt_iff]
  simp only [h.mem_iff]

/-- Insertions at one offset keep their order: they are sorted already, so the stable sort has them
as a sublist, and it has no others. -/
theorem insertedAt_mergeSort (es : List Edit) (p : Nat) :
    insertedAt (es.mergeSort precedes) p = insertedAt es p := by
  have sorted : (es.filter (insertsAt p)).Pairwise (precedes · ·) := by
    refine List.pairwise_of_forall_mem_list fun a ha b hb => ?_
    rw [precedes_iff]
    cases a <;> cases b <;> simp_all [insertsAt, inserted?, isInsert]
  have kept : (es.filter (insertsAt p)).Sublist (es.mergeSort precedes) :=
    List.sublist_mergeSort precedes_trans precedes_total sorted
      List.filter_sublist
  have sub := kept.filter (insertsAt p)
  rw [List.filter_filter] at sub
  simp only [Bool.and_self] at sub
  have perm := (List.mergeSort_perm es precedes).filter (insertsAt p)
  exact insertedAt_congr (sub.eq_of_length perm.length_eq.symm).symm

theorem inOrder_mergeSort {source : Text} (fits : ∀ e ∈ es, e.Fits source.size)
    (apart : es.Pairwise Apart)
    (boundaries : ∀ e ∈ es, IsBoundary source e.offset ∧ IsBoundary source e.stop) :
    InOrder source (es.mergeSort precedes) where
  fits := by simpa [List.mem_mergeSort] using fits
  apart := apart.perm (List.mergeSort_perm es precedes).symm Apart.symm
  sorted := List.pairwise_mergeSort precedes_trans precedes_total es
  boundaries := by simpa [List.mem_mergeSort] using boundaries

theorem makeAll?_eq {source : Text} (fits : ∀ e ∈ es, e.Fits source.size)
    (apart : es.Pairwise Apart)
    (boundaries : ∀ e ∈ es, IsBoundary source e.offset ∧ IsBoundary source e.stop) :
    ∃ m, makeAll? source es = some (insertedAt es 0 ++ renderFrom es 0 source, m) := by
  obtain ⟨segments, h⟩ := @makeFrom?_eq (es.mergeSort precedes) [] source 0
    (inOrder_mergeSort fits apart boundaries) (by simp)
  simp only [List.nil_append, size_nil, insertedAt_mergeSort] at h
  have same : renderFrom (es.mergeSort precedes) 0 source = renderFrom es 0 source :=
    renderFrom_congr (fun q _ => deletesAt_perm (List.mergeSort_perm es precedes))
      (fun q _ => insertedAt_mergeSort es q)
  rw [same] at h
  simp only [makeAll?, h]
  exact ⟨_, rfl⟩

end Edit

end SketchPrep
