import SketchPrep.Proofs.Edit.Landing

/-!
The map between the offsets of a text before and after its edits. Its segments follow each other
without a gap, on either side, and each says of its edits what `Segment.Sound` asks. Main statements:
`covers_makeFrom?`, one pass over sorted edits writes such segments; `exists_offsets`, what the map
made of them says of each offset.
-/

namespace SketchPrep

open Text

/-! ### Ranges that follow each other -/

section Chained

variable {α : Type} {start stop : α → Nat} {a b z i : Nat} {xs ys : List α}

/-- Ranges that lead from `a` to `z` without a gap. -/
def Chained (start stop : α → Nat) (z : Nat) : Nat → List α → Prop
  | a, [] => a = z
  | a, x :: xs => start x = a ∧ a ≤ stop x ∧ Chained start stop z (stop x) xs

theorem Chained.append (h : Chained start stop b a xs) (k : Chained start stop z b ys) :
    Chained start stop z a (xs ++ ys) := by
  induction xs generalizing a with
  | nil => exact h ▸ k
  | cons x xs ih => exact ⟨h.1, h.2.1, ih h.2.2⟩

theorem Chained.le (h : Chained start stop z a xs) : a ≤ z ∧ ∀ x ∈ xs, a ≤ stop x ∧ stop x ≤ z := by
  induction xs generalizing a with
  | nil => exact ⟨Nat.le_of_eq h, by simp⟩
  | cons x xs ih =>
    obtain ⟨-, here, rest⟩ := h
    obtain ⟨le, all⟩ := ih rest
    refine ⟨Nat.le_trans here le, List.forall_mem_cons.2 ⟨⟨here, le⟩, fun y hy => ?_⟩⟩
    exact ⟨Nat.le_trans here (all y hy).1, (all y hy).2⟩

theorem Chained.isParted (h : Chained start stop z a xs) (i : Nat) :
    Halving.IsParted (stop · ≤ i) xs := by
  induction xs generalizing a with
  | nil => exact .nil
  | cons x xs ih =>
    obtain ⟨-, -, rest⟩ := h
    refine .cons (fun y hy => ?_) (ih rest)
    have := (rest.le.2 y hy).1
    simp only [decide_eq_true_eq]
    omega

/-- The range that halving finds is the one around the offset. -/
theorem Chained.found (h : Chained start stop z a xs) (lo : a ≤ i) (hi : i < z) :
    ∃ x ∈ xs, xs[Halving.countBelow (stop · ≤ i) xs]? = some x ∧ start x ≤ i ∧ i < stop x ∧
      stop x ≤ z := by
  rw [Halving.getElem?_countBelow _ _ (h.isParted i)]
  induction xs generalizing a with
  | nil => exact absurd (h ▸ lo) (Nat.not_le.2 hi)
  | cons x xs ih =>
    obtain ⟨begins, here, rest⟩ := h
    by_cases below : stop x ≤ i
    · obtain ⟨y, hy, found, around⟩ := ih rest below
      exact ⟨y, .tail _ hy, by simpa [below] using found, around⟩
    · refine ⟨x, .head _, by simp [below], by omega, by omega, rest.le.1⟩

end Chained

/-! ### Segments -/

open Edit

/-- What a segment says of the edits that it comes from. -/
def Segment.Sound (es : List Edit) (s : Segment) : Prop :=
  match s.kind with
  | .copy => s.outLength = s.inLength ∧ ∀ k < s.inLength,
      deletesAt es (s.inStart + k) = false ∧ landing es (s.inStart + k) = s.outStart + k
  | .insert => s.inLength = 0 ∧ writtenBefore es s.inStart ≤ s.outStart ∧
      s.outStop ≤ landing es s.inStart
  | .delete => s.outLength = 0 ∧ .delete s.inStart s.inLength ∈ es ∧
      landing es s.inStart = s.outStart

/-- Edits that do the same in another order. -/
theorem Segment.Sound.congr {es fs : List Edit} {s : Segment} (h : s.Sound es)
    (hi : ∀ q, insertedAt es q = insertedAt fs q) (hd : ∀ q, deletesAt es q = deletesAt fs q)
    (hm : ∀ e ∈ es, e ∈ fs) : s.Sound fs := by
  have same := landing_congr hi hd
  unfold Segment.Sound at h ⊢
  cases hk : s.kind with
  | copy => simpa only [hk, hd, same] using h
  | insert => simpa only [hk, same] using h
  | delete =>
    simp only [hk, same] at h ⊢
    exact ⟨h.1, hm _ h.2.1, h.2.2⟩

/-- Segments that lead from `i` to `k` in the source and from `j` to `l` in the edited text. -/
structure Segment.Cover (es : List Edit) (segments : List Segment) (i k j l : Nat) : Prop where
  input : Chained Segment.inStart Segment.inStop k i segments
  output : Chained Segment.outStart Segment.outStop l j segments
  sound : ∀ s ∈ segments, s.Sound es

theorem Segment.Cover.append {es : List Edit} {ss ts : List Segment} {i k p j l q : Nat}
    (h : Cover es ss i k j l) (h' : Cover es ts k p l q) : Cover es (ss ++ ts) i p j q :=
  ⟨h.input.append h'.input, h.output.append h'.output, fun s hs =>
    (List.mem_append.1 hs).elim (h.sound s) (h'.sound s)⟩

theorem Segment.cover_nil {es : List Edit} (i j : Nat) : Segment.Cover es [] i i j j :=
  ⟨rfl, rfl, by simp⟩

theorem Segment.cover_singleton {es : List Edit} {s : Segment} (h : s.Sound es) :
    Segment.Cover es [s] s.inStart s.inStop s.outStart s.outStop :=
  ⟨⟨rfl, Nat.le_add_right .., rfl⟩, ⟨rfl, Nat.le_add_right .., rfl⟩, by simpa using h⟩

theorem Text.size_of_slice? {cs t : Text} {lo hi : Nat} (h : slice? cs lo hi = some t) :
    t.size = hi - lo := by
  unfold slice? at h
  split at h
  · obtain ⟨⟨a, rest⟩, -, inner⟩ := Option.bind_eq_some_iff.1 h
    obtain ⟨⟨b, c⟩, cut, rfl⟩ := Option.map_eq_some_iff.1 inner
    exact (split?_eq_some.1 cut).2
  · cases h

namespace Edit

variable {source here : Text} {all es : List Edit} {pos out stop : Nat}

/-- The pass has come to `pos` and has `es` before it; `here` is what it inserted at `pos`. -/
structure Passed (all : List Edit) (pos : Nat) (here : Text) (out : Nat) (es : List Edit) :
    Prop where
  offsets : ∀ e ∈ es, pos ≤ e.offset
  mem : ∀ e ∈ es, e ∈ all
  inserts : insertedAt all pos = here ++ insertedAt es pos
  insertsBehind : ∀ q, pos < q → insertedAt all q = insertedAt es q
  deletes : ∀ q, pos ≤ q → deletesAt all q = deletesAt es q
  written : writtenBefore all pos + here.size = out

/-- Up to the next edit the source is copied. -/
theorem Passed.copy (h : Passed all pos here out es) {kept : Text} {segments : List Segment}
    (hs : pos ≤ stop) (next : ∀ e ∈ es, stop ≤ e.offset)
    (hc : copy? source pos out stop = some (kept, segments)) :
    ∃ here', Passed all stop here' (out + kept.size) es ∧
      Segment.Cover all segments pos stop out (out + kept.size) := by
  unfold copy? at hc
  split at hc
  · rename_i lt
    obtain ⟨t, slice, heq⟩ := Option.map_eq_some_iff.1 hc
    obtain ⟨rfl, rfl⟩ := Prod.mk.inj heq
    have size := Text.size_of_slice? slice
    have none_before : ∀ q, q < stop → insertedAt es q = [] := fun q hq =>
      insertedAt_eq_nil fun t ht => by
        have := next _ ht
        rw [offset_insert] at this
        omega
    have none_deleted : ∀ q, pos ≤ q → q < stop → deletesAt all q = false := fun q lo hq => by
      rw [h.deletes q lo]
      exact deletesAt_eq_false fun o n he => by
        have := next _ he
        rw [offset_delete] at this
        omega
    have none_inside : ∀ q, pos < q → q < stop → insertedAt all q = [] := fun q lo hq => by
      rw [h.insertsBehind q lo, none_before q hq]
    have first : landing all pos = out := by
      rw [landing, h.inserts, none_before pos lt, List.append_nil, h.written]
    have at_place : ∀ k, pos + (k + 1) ≤ stop → writtenBefore all (pos + (k + 1)) = out + (k + 1) :=
      fun k hk => by
        rw [writtenBefore_add (fun q lo hq => none_deleted q lo (by omega))
          (fun q lo hq => none_inside q lo (by omega)), first]
        rfl
    obtain ⟨k, rfl⟩ : ∃ k, stop = pos + (k + 1) := ⟨stop - pos - 1, by omega⟩
    have last := at_place k (Nat.le_refl _)
    rw [Nat.add_sub_cancel_left] at size
    refine ⟨[], ⟨next, h.mem, ?_, ?_, ?_, ?_⟩, ?_⟩
    · exact h.insertsBehind _ lt
    · exact fun q hq => h.insertsBehind q (by omega)
    · exact fun q hq => h.deletes q (by omega)
    · rw [last, size]
      rfl
    · have sound : Segment.Sound all ⟨.copy, pos, pos + (k + 1) - pos, out, pos + (k + 1) - pos⟩ := by
        rw [Nat.add_sub_cancel_left]
        refine ⟨rfl, fun j (hj : j < k + 1) => ⟨none_deleted (pos + j) (by omega) (by omega), ?_⟩⟩
        cases j with
        | zero => exact first
        | succ j =>
          have nothing := none_inside (pos + (j + 1)) (by omega) (by omega)
          simp only [landing, at_place j (by omega), nothing, size_nil, Nat.add_zero]
      have cover := Segment.cover_singleton sound
      simpa [Segment.inStop, Segment.outStop, size] using cover
  · obtain ⟨rfl, rfl⟩ := Prod.mk.inj (Option.some.inj hc)
    obtain rfl : pos = stop := by omega
    exact ⟨here, h, Segment.cover_nil pos out⟩

theorem Passed.insert {o : Nat} {t : Text} (h : Passed all o here out (.insert o t :: es)) :
    Passed all o (here ++ t) (out + t.size) es ∧
      Segment.Sound all ⟨.insert, o, 0, out, t.size⟩ := by
  have inserts : insertedAt all o = here ++ t ++ insertedAt es o := by
    rw [h.inserts, insertedAt_cons, insertedAt_insert_self, List.append_assoc]
  have written := h.written
  refine ⟨⟨fun e he => h.offsets e (.tail _ he), fun e he => h.mem e (.tail _ he), inserts, ?_, ?_,
    ?_⟩, rfl, ?_, ?_⟩
  · intro q hq
    rw [h.insertsBehind q hq, insertedAt_cons, insertedAt_insert_of_ne (by omega), List.nil_append]
  · intro q hq
    rw [h.deletes q hq]
    simp [deletesAt, deleted?]
  · rw [size_append]
    omega
  · exact Nat.le_of_lt_succ (by simp only; omega)
  · simp only [Segment.outStop, landing, inserts, size_append]
    omega

theorem Passed.delete {o n : Nat} (h : Passed all o here out (.delete o n :: es))
    (order : InOrder source (.delete o n :: es)) :
    Passed all (o + n) [] out es ∧ Segment.Sound all ⟨.delete, o, n, out, 0⟩ := by
  have fits := order.fits _ (.head _)
  have behind := order.stop_le
  simp only [Fits, stop_delete] at fits behind
  have skip : ∀ q, insertedAt (.delete o n :: es) q = insertedAt es q := fun q => by
    rw [insertedAt_cons, insertedAt_eq_nil (by simp), List.nil_append]
  have landed : landing all o = out := by
    rw [landing, h.inserts, order.no_insert, List.append_nil, h.written]
  have none_inside : ∀ q, o < q → q < o + n → insertedAt all q = [] := fun q lo hq => by
    rw [h.insertsBehind q lo, skip]
    exact insertedAt_eq_nil fun t ht => by
      have := behind _ ht
      rw [offset_insert] at this
      omega
  have gone : ∀ q, o ≤ q → q < o + n → deletesAt all q = true := fun q lo hq => by
    rw [h.deletes q lo]
    exact deletesAt_iff.2 ⟨o, n, .head _, lo, hq⟩
  have written : writtenBefore all (o + n) = out := by
    obtain ⟨k, rfl⟩ : ∃ k, n = k + 1 := ⟨n - 1, by omega⟩
    rw [writtenBefore_add gone none_inside, landed]
    rfl
  refine ⟨⟨behind, fun e he => h.mem e (.tail _ he), ?_, ?_, ?_, written⟩, rfl, h.mem _ (.head _),
    landed⟩
  · rw [h.insertsBehind _ (by omega), skip, List.nil_append]
  · intro q hq
    rw [h.insertsBehind q (by omega), skip]
  · intro q hq
    rw [h.deletes q (by omega), Bool.eq_iff_iff, deletesAt_iff, deletesAt_iff]
    simp only [List.mem_cons, Edit.delete.injEq]
    grind

theorem covers_makeFrom? {t : Text} {segments : List Segment} (order : InOrder source es)
    (hp : pos ≤ source.size) (h : Passed all pos here out es)
    (hm : makeFrom? source pos out es = some (t, segments)) :
    Segment.Cover all segments pos source.size out (out + t.size) := by
  induction es generalizing pos here out t segments with
  | nil =>
    obtain ⟨-, -, cover⟩ := h.copy hp (by simp) hm
    exact cover
  | cons e es ih =>
    have from_here := h.offsets e (.head _)
    have in_order : ∀ x ∈ e :: es, e.offset ≤ x.offset := by
      refine List.forall_mem_cons.2 ⟨Nat.le_refl _, fun x hx => ?_⟩
      exact Nat.le_trans e.offset_le_stop (order.stop_le x hx)
    cases e with
    | insert o t' =>
      simp only [makeFrom?, Option.bind_eq_bind, Option.bind_eq_some_iff, Option.pure_def,
        Option.some.injEq, offset_insert] at hm from_here in_order
      obtain ⟨⟨kept, copied⟩, hcopy, ⟨rest, others⟩, hrest, heq⟩ := hm
      obtain ⟨rfl, rfl⟩ := Prod.mk.inj heq
      rw [Nat.max_eq_right from_here] at hrest ⊢
      obtain ⟨here', reached, cover⟩ := h.copy from_here in_order hcopy
      obtain ⟨next, sound⟩ := reached.insert
      have last := ih order.tail (order.fits _ (.head _)) next hrest
      have whole := cover.append ((Segment.cover_singleton sound).append last)
      simpa [Nat.add_assoc] using whole
    | delete o n =>
      simp only [makeFrom?, Option.bind_eq_bind, Option.bind_eq_some_iff, Option.pure_def,
        Option.some.injEq, offset_delete] at hm from_here in_order
      obtain ⟨⟨kept, copied⟩, hcopy, ⟨rest, others⟩, hrest, heq⟩ := hm
      obtain ⟨rfl, rfl⟩ := Prod.mk.inj heq
      obtain ⟨here', reached, cover⟩ := h.copy from_here in_order hcopy
      obtain ⟨next, sound⟩ := reached.delete order
      have last := ih order.tail (order.fits _ (.head _)).2 next hrest
      have whole := cover.append ((Segment.cover_singleton sound).append last)
      simpa [Nat.add_assoc] using whole

/-! ### The map -/

variable {m : OffsetMap} {i j : Nat}

theorem covers_makeAll? {t : Text} (h : Recordable source es)
    (hm : makeAll? source es = some (t, m)) :
    Segment.Cover es m.segments 0 m.inputSize 0 m.outputSize ∧
      m.inputSize = source.size ∧ m.outputSize = t.size := by
  simp only [makeAll?, Option.bind_eq_bind, Option.bind_eq_some_iff, Option.pure_def,
    Option.some.injEq] at hm
  obtain ⟨⟨t', segments⟩, pass, heq⟩ := hm
  obtain ⟨rfl, rfl⟩ := Prod.mk.inj heq
  have start : Passed (es.mergeSort precedes) 0 [] 0 (es.mergeSort precedes) :=
    ⟨by simp, fun _ he => he, rfl, fun _ _ => rfl, fun _ _ => rfl, rfl⟩
  have order := inOrder_mergeSort h.fits h.apart h.boundaries
  have cover := covers_makeFrom? order (Nat.zero_le _) start pass
  rw [Nat.zero_add] at cover
  have perm := List.mergeSort_perm es precedes
  have sound : ∀ s ∈ segments, s.Sound es := fun s hs =>
    (cover.sound s hs).congr (insertedAt_mergeSort es) (fun _ => deletesAt_perm perm)
      fun _ he => perm.mem_iff.1 he
  exact ⟨⟨cover.input, cover.output, sound⟩, rfl, rfl⟩

/-- The segment around a byte of the source is copied or deleted. -/
theorem toOutput_cases (h : Segment.Cover es m.segments 0 m.inputSize 0 m.outputSize)
    (hi : i < m.inputSize) :
    (deletesAt es i = false ∧ m.toOutput i = landing es i ∧ landing es i < m.outputSize) ∨
      ∃ o n, .delete o n ∈ es ∧ o ≤ i ∧ i < o + n ∧ m.toOutput i = landing es o := by
  obtain ⟨s, hs, found, lo, hi', -⟩ := h.input.found (Nat.zero_le i) hi
  have sound := h.sound s hs
  have bound := (h.output.le.2 s hs).2
  have value : m.toOutput i =
      if s.kind = .copy then s.outStart + (i - s.inStart) else s.outStart := by
    simp only [OffsetMap.toOutput, if_neg (Nat.not_le.2 hi), found]
  rw [Segment.inStop] at hi'
  cases hk : s.kind with
  | copy =>
    simp only [Segment.Sound, hk] at sound
    obtain ⟨kept, landed⟩ := sound.2 (i - s.inStart) (by omega)
    rw [Nat.add_sub_cancel' lo] at kept landed
    rw [hk, if_pos rfl] at value
    rw [Segment.outStop, sound.1] at bound
    exact .inl ⟨kept, by omega, by omega⟩
  | insert =>
    simp only [Segment.Sound, hk] at sound
    omega
  | delete =>
    simp only [Segment.Sound, hk] at sound
    rw [hk, if_neg (by decide)] at value
    exact .inr ⟨_, _, sound.2.1, lo, hi', value.trans sound.2.2.symm⟩

/-- The segment around a byte of the edited text is copied or inserted. -/
theorem toInput_cases (h : Segment.Cover es m.segments 0 m.inputSize 0 m.outputSize)
    (hj : j < m.outputSize) :
    (m.toInput j < m.inputSize ∧ deletesAt es (m.toInput j) = false ∧
      landing es (m.toInput j) = j) ∨ InsertedBytes es (m.toInput j) j := by
  obtain ⟨s, hs, found, lo, hi, -⟩ := h.output.found (Nat.zero_le j) hj
  have sound := h.sound s hs
  have bound := (h.input.le.2 s hs).2
  have value : m.toInput j =
      if s.kind = .copy then s.inStart + (j - s.outStart) else s.inStart := by
    simp only [OffsetMap.toInput, if_neg (Nat.not_le.2 hj), found]
  rw [Segment.outStop] at hi
  cases hk : s.kind with
  | copy =>
    simp only [Segment.Sound, hk] at sound
    obtain ⟨kept, landed⟩ := sound.2 (j - s.outStart) (by omega)
    rw [hk, if_pos rfl] at value
    rw [Segment.inStop] at bound
    rw [value]
    exact .inl ⟨by omega, kept, by omega⟩
  | insert =>
    simp only [Segment.Sound, hk, Segment.outStop] at sound
    rw [hk, if_neg (by decide)] at value
    rw [value]
    exact .inr ⟨by omega, by omega⟩
  | delete =>
    simp only [Segment.Sound, hk] at sound
    omega

/-- What the map says of the offsets of a source that was edited. -/
structure Maps (source : Text) (es : List Edit) (m : OffsetMap) : Prop where
  toOutput_kept : ∀ i, Survives source es i → m.toOutput i = landing es i
  toOutput_deleted : ∀ o n, .delete o n ∈ es → ∀ i, o ≤ i → i < o + n →
    m.toOutput i = landing es o
  landing_lt : ∀ i, Survives source es i → landing es i < m.outputSize
  toInput : ∀ j < m.outputSize, Survives source es (m.toInput j) ∧ landing es (m.toInput j) = j ∨
    InsertedBytes es (m.toInput j) j

theorem Recordable.maps {t : Text} (h : Recordable source es)
    (hm : makeAll? source es = some (t, m)) : Maps source es m := by
  obtain ⟨cover, input, -⟩ := covers_makeAll? h hm
  have kept (i : Nat) (hi : Survives source es i) :
      m.toOutput i = landing es i ∧ landing es i < m.outputSize := by
    rcases toOutput_cases cover (input ▸ hi.1) with ⟨-, landed⟩ | ⟨o, n, he, lo, hi', -⟩
    · exact landed
    · have gone := deletesAt_iff.2 ⟨o, n, he, lo, hi'⟩
      rw [hi.2] at gone
      cases gone
  refine ⟨fun i hi => (kept i hi).1, ?_, fun i hi => (kept i hi).2, ?_⟩
  · intro o n he i lo hi
    have fits := h.fits _ he
    have gone := deletesAt_iff.2 ⟨o, n, he, lo, hi⟩
    simp only [Fits] at fits
    rcases toOutput_cases cover (input ▸ (by omega) : i < m.inputSize) with
      ⟨none, -⟩ | ⟨p, k, he', lo', hi', landed⟩
    · rw [none] at gone
      cases gone
    · by_cases same : Edit.delete o n = .delete p k
      · cases same
        exact landed
      · have apart := h.apart.forall he he' same
        simp only [Apart] at apart
        omega
  · intro j hj
    rcases toInput_cases cover hj with ⟨inside, none, landed⟩ | inserted
    · exact .inl ⟨⟨input ▸ inside, none⟩, landed⟩
    · exact .inr inserted

/-- A byte that is kept goes to its copy and back. -/
theorem Maps.toInput_landing (h : Maps source es m)
    (hi : Survives source es i) : m.toInput (landing es i) = i := by
  rcases h.toInput _ (h.landing_lt i hi) with ⟨kept, landed⟩ | inserted
  · exact landing_inj kept.2 hi.2 landed
  · exact absurd inserted (not_insertedBytes_landing hi.2)

theorem Recordable.keeps {t : Text} (h : Recordable source es)
    (hm : makeAll? source es = some (t, m)) : Keeps source es t := by
  have maps := h.maps hm
  have size := (covers_makeAll? h hm).2.2
  refine ⟨fun i => getElem?_landing h hm, fun i j hi _ lt => landing_lt_landing hi.2 lt, ?_⟩
  intro j hj
  rcases maps.toInput j (size ▸ hj) with ⟨kept, landed⟩ | inserted
  · left
    refine ⟨⟨m.toInput j, ⟨kept, landed⟩, ?_⟩, fun p hp => ?_⟩
    · rintro i ⟨hi, rfl⟩
      exact (maps.toInput_landing hi).symm
    · rw [← landed] at hp
      exact not_insertedBytes_landing kept.2 hp
  · right
    have inside := inserted.le_size h
    refine ⟨?_, m.toInput j, inside, inserted, getElem?_inserted h hm inside inserted⟩
    rintro i hi rfl
    exact not_insertedBytes_landing hi.2 inserted

/-- A byte that is kept goes to its copy and back, one that is deleted goes behind what is inserted
where its deletion begins, and each byte of the edited text is the copy of one byte or part of an
insertion, whose place it goes back to. -/
theorem exists_offsets (h : Recordable source es) :
    ∃ out m, makeAll? source es = some (out, m) ∧
      (∀ i, Survives source es i → (bytes out)[m.toOutput i]? = (bytes source)[i]? ∧
        m.toInput (m.toOutput i) = i) ∧
      (∀ o n, .delete o n ∈ es → ∀ i, o ≤ i → i < o + n → m.toOutput i = landing es o) ∧
      ∀ j < out.size,
        ((∃! i, Survives source es i ∧ m.toOutput i = j) ∧ ∀ p, ¬InsertedBytes es p j) ∨
        ((∀ i, Survives source es i → m.toOutput i ≠ j) ∧ ∃ p ≤ source.size,
          InsertedBytes es p j ∧ m.toInput j = p ∧
            (bytes out)[j]? = (bytes (insertedAt es p))[j - writtenBefore es p]?) := by
  obtain ⟨m, hm⟩ := makeAll?_eq h.fits h.apart h.boundaries
  have maps := h.maps hm
  have keeps := h.keeps hm
  have size := (covers_makeAll? h hm).2.2
  have lands (i j : Nat) : Survives source es i ∧ m.toOutput i = j ↔
      Survives source es i ∧ landing es i = j :=
    and_congr_right fun hi => by rw [maps.toOutput_kept i hi]
  refine ⟨_, m, hm, ?_, maps.toOutput_deleted, ?_⟩
  · intro i hi
    rw [maps.toOutput_kept i hi]
    exact ⟨keeps.same i hi, maps.toInput_landing hi⟩
  · intro j hj
    rcases keeps.rest j hj with copied | ⟨no_copy, p, hp, inserted, same⟩
    · simp only [lands]
      exact .inl copied
    · right
      refine ⟨fun i hi => maps.toOutput_kept i hi ▸ no_copy i hi, p, hp, inserted, ?_, same⟩
      rcases maps.toInput j (size ▸ hj) with ⟨kept, landed⟩ | back
      · exact absurd landed (no_copy _ kept)
      · exact back.unique inserted

/-- A character of two bytes is replaced, with an insertion on each side: both its bytes go behind
what replaces it, and the byte behind it comes back. -/
theorem exists_offsets_of_replaced_char :
    let source := ['a', 'é', 'b']
    let es := [.insert 1 ['x'], .delete 1 2, .insert 3 ['y'], .insert 1 ['z']]
    Recordable source es ∧ ∃ out m, makeAll? source es = some (out, m) ∧ m.toOutput 1 = 3 ∧
      m.toOutput 2 = 3 ∧ m.toInput (m.toOutput 3) = 3 := by
  have recordable : Recordable ['a', 'é', 'b']
      [.insert 1 ['x'], .delete 1 2, .insert 3 ['y'], .insert 1 ['z']] :=
    ⟨by decide, by decide, by decide⟩
  obtain ⟨out, m, made, kept, deleted, -⟩ := exists_offsets recordable
  refine ⟨recordable, out, m, made, ?_, ?_, ?_⟩
  · exact deleted 1 2 (by decide) 1 (by decide) (by decide)
  · exact deleted 1 2 (by decide) 2 (by decide) (by decide)
  · exact (kept 3 ⟨by decide, by decide⟩).2

end Edit

end SketchPrep
