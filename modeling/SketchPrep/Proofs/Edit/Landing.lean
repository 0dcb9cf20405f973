import Mathlib.Logic.ExistsUnique
import SketchPrep.Proofs.Draft.Recordable

/-!
Where the bytes of a text go when it is edited. A byte that is kept lands behind everything that is
kept or inserted before it. Main statements: `landing_lt_landing`, bytes that are kept stay in order;
`getElem?_landing` and `getElem?_inserted`, what stands where they land and where text is inserted.
-/

namespace SketchPrep.Edit

open Text

/-- How many bytes come before the insertions at a position: those inserted earlier, and those of
the source that are kept. -/
def writtenBefore (edits : List Edit) : Nat → Nat
  | 0 => 0
  | p + 1 =>
    writtenBefore edits p + (insertedAt edits p).size + if deletesAt edits p then 0 else 1

/-- The place right behind the insertions at `p`. -/
def landing (edits : List Edit) (p : Nat) : Nat :=
  writtenBefore edits p + (insertedAt edits p).size

/-- A byte of the source that no deletion covers. -/
def Survives (source : Text) (edits : List Edit) (i : Nat) : Prop :=
  i < source.size ∧ deletesAt edits i = false

/-- A place in text that was inserted at `p`. -/
def InsertedBytes (edits : List Edit) (p j : Nat) : Prop :=
  writtenBefore edits p ≤ j ∧ j < landing edits p

/-- The edited text is what is kept of the source, each byte once and in order, and what is
inserted. -/
structure Keeps (source : Text) (es : List Edit) (out : Text) : Prop where
  same : ∀ i, Survives source es i → (bytes out)[landing es i]? = (bytes source)[i]?
  ordered : ∀ i j, Survives source es i → Survives source es j → i < j →
    landing es i < landing es j
  rest : ∀ j < out.size,
    ((∃! i, Survives source es i ∧ landing es i = j) ∧ ∀ p, ¬InsertedBytes es p j) ∨
    ((∀ i, Survives source es i → landing es i ≠ j) ∧ ∃ p ≤ source.size, InsertedBytes es p j ∧
      (bytes out)[j]? = (bytes (insertedAt es p))[j - writtenBefore es p]?)

variable {source out : Text} {es : List Edit} {m : OffsetMap} {i j p q : Nat}

/-! ### Order -/

theorem writtenBefore_succ (es : List Edit) (p : Nat) :
    writtenBefore es (p + 1) = landing es p + if deletesAt es p then 0 else 1 := rfl

theorem writtenBefore_le_landing (es : List Edit) (p : Nat) :
    writtenBefore es p ≤ landing es p := Nat.le_add_right ..

theorem landing_le_writtenBefore (h : p < q) : landing es p ≤ writtenBefore es q := by
  obtain ⟨k, rfl⟩ := Nat.exists_eq_add_of_lt h
  clear h
  induction k with
  | zero => exact Nat.le_add_right ..
  | succ k ih =>
    have here := writtenBefore_le_landing es (p + k + 1)
    rw [← Nat.add_assoc, writtenBefore_succ]
    omega

theorem landing_lt_writtenBefore (hp : deletesAt es p = false) (h : p < q) :
    landing es p < writtenBefore es q := by
  have next : landing es p < writtenBefore es (p + 1) := by simp [writtenBefore_succ, hp]
  rcases Nat.eq_or_lt_of_le h with rfl | lt
  · exact next
  · have here := writtenBefore_le_landing es (p + 1)
    have behind : landing es (p + 1) ≤ writtenBefore es q := landing_le_writtenBefore lt
    omega

theorem landing_lt_landing (hi : deletesAt es i = false) (h : i < j) :
    landing es i < landing es j :=
  Nat.lt_of_lt_of_le (landing_lt_writtenBefore hi h) (writtenBefore_le_landing es j)

theorem landing_inj (hi : deletesAt es i = false) (hj : deletesAt es j = false)
    (h : landing es i = landing es j) : i = j := by
  rcases Nat.lt_trichotomy i j with lt | eq | lt
  · exact absurd h (Nat.ne_of_lt (landing_lt_landing hi lt))
  · exact eq
  · exact absurd h (Nat.ne_of_gt (landing_lt_landing hj lt))

/-- No byte that is kept lands in inserted text. -/
theorem not_insertedBytes_landing (hi : deletesAt es i = false) :
    ¬InsertedBytes es p (landing es i) := by
  rintro ⟨lo, hi'⟩
  rcases Nat.lt_or_ge i p with lt | ge
  · have := landing_lt_writtenBefore hi lt
    omega
  · rcases Nat.eq_or_lt_of_le ge with rfl | lt
    · omega
    · have := writtenBefore_le_landing es i
      have : landing es p ≤ writtenBefore es i := landing_le_writtenBefore lt
      omega

theorem InsertedBytes.unique (hp : InsertedBytes es p j) (hq : InsertedBytes es q j) : p = q := by
  obtain ⟨plo, phi⟩ := hp
  obtain ⟨qlo, qhi⟩ := hq
  rcases Nat.lt_trichotomy p q with lt | eq | lt
  · have : landing es p ≤ writtenBefore es q := landing_le_writtenBefore lt
    omega
  · exact eq
  · have : landing es q ≤ writtenBefore es p := landing_le_writtenBefore lt
    omega

theorem InsertedBytes.le_size (hj : InsertedBytes es p j) (h : Recordable source es) :
    p ≤ source.size := by
  by_contra past
  have nothing : insertedAt es p = [] := insertedAt_eq_nil fun t ht => past (h.fits _ ht)
  obtain ⟨lo, hi⟩ := hj
  rw [landing, nothing, size_nil] at hi
  omega

/-- A stretch that is kept or deleted as a whole, with no insertion inside. -/
theorem writtenBefore_add {k : Nat} {gone : Bool}
    (hd : ∀ q, p ≤ q → q < p + (k + 1) → deletesAt es q = gone)
    (hi : ∀ q, p < q → q < p + (k + 1) → insertedAt es q = []) :
    writtenBefore es (p + (k + 1)) = landing es p + if gone then 0 else k + 1 := by
  induction k with
  | zero => rw [writtenBefore_succ, hd p (Nat.le_refl _) (by omega)]
  | succ k ih =>
    have before := ih (fun q lo hi => hd q lo (by omega)) (fun q lo hq => hi q lo (by omega))
    have nothing : landing es (p + (k + 1)) = writtenBefore es (p + (k + 1)) := by
      rw [landing, hi _ (by omega) (by omega), size_nil, Nat.add_zero]
    rw [← Nat.add_assoc, writtenBefore_succ, nothing, before, hd _ (by omega) (by omega)]
    cases gone <;> simp [Nat.add_assoc]

theorem landing_congr {fs : List Edit} (hi : ∀ q, insertedAt es q = insertedAt fs q)
    (hd : ∀ q, deletesAt es q = deletesAt fs q) (p : Nat) :
    writtenBefore es p = writtenBefore fs p ∧ landing es p = landing fs p := by
  induction p with
  | zero => exact ⟨rfl, by rw [landing, landing, hi]; rfl⟩
  | succ p ih =>
    have written : writtenBefore es (p + 1) = writtenBefore fs (p + 1) := by
      rw [writtenBefore_succ, writtenBefore_succ, ih.2, hd]
    exact ⟨written, by rw [landing, landing, written, hi]⟩

/-! ### Bytes -/

theorem length_reference {d : Draft} (hi : i ≤ d.source.size) :
    ((List.range i).flatMap d.referenceAt).length = writtenBefore d.edits i := by
  induction i with
  | zero => rfl
  | succ i ih =>
    obtain ⟨b, hb⟩ : ∃ b, (bytes d.source)[i]? = some b :=
      ⟨_, List.getElem?_eq_getElem (by simpa using Nat.lt_of_succ_le hi)⟩
    have here : (d.referenceAt i).length =
        (insertedAt d.edits i).size + if deletesAt d.edits i then 0 else 1 := by
      rw [Draft.referenceAt, Draft.insertedAt_eq, List.length_append, length_bytes, hb]
      split <;> rfl
    rw [List.range_succ, List.flatMap_append, List.length_append, ih (by omega), writtenBefore_succ,
      landing, Nat.add_assoc]
    simpa using here

/-- The edited text, cut where the insertions at `i` begin. -/
theorem exists_parts (h : Recordable source es) (hm : makeAll? source es = some (out, m))
    (hi : i ≤ source.size) :
    ∃ before behind, bytes out = before ++ (bytes (insertedAt es i) ++
      (if deletesAt es i then [] else (bytes source)[i]?.toList)) ++ behind ∧
      before.length = writtenBefore es i := by
  let d : Draft := { Draft.ofSource source with edits := es }
  have made := makeAll?_eq h.fits h.apart h.boundaries
  obtain ⟨m', hm'⟩ := made
  obtain ⟨rfl, -⟩ := Prod.mk.inj (Option.some.inj (hm.symm.trans hm'))
  have reference : bytes (insertedAt es 0 ++ renderFrom es 0 source) = d.referenceBytes :=
    @Draft.bytes_text d h.boundaries
  have split : List.range (d.size + 1) =
      List.range i ++ i :: List.range' (i + 1) (source.size - i) := by
    have size : d.size + 1 = i + (source.size - i + 1) := by
      change source.size + 1 = _
      omega
    rw [size, List.range_eq_range', List.range_eq_range', ← List.range'_append_1, List.range'_succ,
      Nat.zero_add]
  refine ⟨(List.range i).flatMap d.referenceAt,
    (List.range' (i + 1) (source.size - i)).flatMap d.referenceAt, ?_, @length_reference i d hi⟩
  rw [reference, Draft.referenceBytes, split, List.flatMap_append, List.flatMap_cons,
    List.append_assoc]
  rfl

theorem getElem?_landing (h : Recordable source es) (hm : makeAll? source es = some (out, m))
    (hi : Survives source es i) : (bytes out)[landing es i]? = (bytes source)[i]? := by
  obtain ⟨before, behind, cut, written⟩ := exists_parts h hm (Nat.le_of_lt hi.1)
  obtain ⟨b, hb⟩ : ∃ b, (bytes source)[i]? = some b :=
    ⟨_, List.getElem?_eq_getElem (by simpa using hi.1)⟩
  have place : landing es i = (before ++ bytes (insertedAt es i)).length := by
    simp [written, landing]
  rw [cut, hi.2, hb, place]
  simp

theorem getElem?_inserted (h : Recordable source es) (hm : makeAll? source es = some (out, m))
    (hp : p ≤ source.size) (hj : InsertedBytes es p j) :
    (bytes out)[j]? = (bytes (insertedAt es p))[j - writtenBefore es p]? := by
  obtain ⟨before, behind, cut, written⟩ := exists_parts h hm hp
  obtain ⟨lo, hi⟩ := hj
  have inside : j - writtenBefore es p < (bytes (insertedAt es p)).length := by
    rw [length_bytes]
    simp only [landing] at hi
    omega
  rw [cut, List.append_assoc, List.getElem?_append_right (by omega), written, List.append_assoc,
    List.getElem?_append_left inside]

end SketchPrep.Edit
