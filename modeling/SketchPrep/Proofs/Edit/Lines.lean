import SketchPrep.Proofs.Edit.Landing

/-!
The lines of an edited text. Main statements: `landing_add_size`, what is rendered of a part at the
front ends where the offset behind the part lands; `count_front`, if nothing that is inserted behind
the start breaks a line, the line feeds that are rendered and those that are deleted are those of
the source.
-/

namespace SketchPrep

open Text

namespace Text

variable {a rest : Text} {c : Char} {i : Nat}

theorem eq_of_mem_utf8EncodeChar (h : 10 ∈ String.utf8EncodeChar c) : c = '\n' := by
  have byte (n : Nat) (hn : n < 256) (h : (10 : UInt8) = UInt8.ofNat n) : n = 10 := by
    have := congrArg UInt8.toNat h
    rw [UInt8.toNat_ofNat'] at this
    simp only [UInt8.reduceToNat] at this
    omega
  unfold String.utf8EncodeChar at h
  dsimp only at h
  split at h
  · rw [List.mem_singleton] at h
    have value := byte _ (by omega) h
    exact Char.ext (UInt32.toNat_inj.1 value)
  · -- all bytes of a longer form are 128 or more
    split at h
    · simp only [List.mem_cons, List.not_mem_nil, or_false] at h
      rcases h with h | h <;> have := byte _ (by omega) h <;> omega
    · split at h
      · simp only [List.mem_cons, List.not_mem_nil, or_false] at h
        rcases h with h | h | h <;> have := byte _ (by omega) h <;> omega
      · simp only [List.mem_cons, List.not_mem_nil, or_false] at h
        rcases h with h | h | h | h <;> have := byte _ (by omega) h <;> omega

theorem getElem?_bytes_char (hi : i < c.utf8Size) :
    (bytes (a ++ c :: rest))[a.size + i]? = (String.utf8EncodeChar c)[i]? := by
  have parts : bytes (a ++ c :: rest) = bytes a ++ (String.utf8EncodeChar c ++ bytes rest) := by
    rw [bytes_append]
    rfl
  have inside : i < (String.utf8EncodeChar c).length := by simpa using hi
  rw [parts, List.getElem?_append_right (by simp), length_bytes, Nat.add_sub_cancel_left,
    List.getElem?_append_left inside]

end Text

namespace Edit

/-- How many line feeds of the source are deleted before an offset. -/
def deletedFeeds (source : Text) (edits : List Edit) (offset : Nat) : Nat :=
  (List.range offset).countP fun i => (bytes source)[i]? = some 10 && deletesAt edits i

variable {source a rest : Text} {es : List Edit} {c : Char}

/-- Behind a character that is kept or deleted as a whole. -/
theorem landing_char (h : Recordable (a ++ c :: rest) es) :
    landing es (a.size + c.utf8Size) = landing es a.size +
      (if deletesAt es a.size then 0 else c.utf8Size) +
        (insertedAt es (a.size + c.utf8Size)).size := by
  let d : Draft := { Draft.ofSource (a ++ c :: rest) with edits := es }
  obtain ⟨k, hk⟩ := Nat.exists_eq_succ_of_ne_zero (Nat.ne_of_gt c.utf8Size_pos)
  have stretch : writtenBefore es (a.size + (k + 1)) =
      landing es a.size + if deletesAt es a.size then 0 else k + 1 := by
    refine writtenBefore_add (fun q lo hi => ?_) fun q lo hi => ?_
    · exact @Draft.deletesAt_inside d a rest c q rfl h.boundaries lo (by omega)
    · exact @Draft.insertedAt_inside d a rest c q rfl h.boundaries lo (by omega)
  rw [landing, hk, stretch]

/-- What is rendered from the end of `before` on, up to the end of `a`. -/
theorem landing_add_size {before : Text} (h : Recordable (before ++ (a ++ rest)) es) :
    landing es before.size + (renderFrom es before.size a).size = landing es (before ++ a).size := by
  induction a generalizing before with
  | nil => simp [renderFrom]
  | cons c a ih =>
    have next := @ih (before ++ [c]) (by simpa using h)
    have here := @landing_char before (a ++ rest) es c h
    simp only [size_append, size_cons, size_nil, Nat.add_zero, List.append_assoc] at next
    rw [size_append, size_cons, ← next, here, renderFrom]
    simp only [size_append]
    cases deletesAt es before.size <;> simp <;> omega

theorem size_front (h : Recordable (a ++ rest) es) : (front es a).size = landing es a.size := by
  have reached := @landing_add_size a rest es [] h
  have start : landing es 0 = (insertedAt es 0).size := Nat.zero_add _
  rw [Text.size_nil, start] at reached
  rw [front, size_append]
  exact reached

/-! ### Line feeds -/

theorem deletedFeeds_char (hs : source = a ++ c :: rest) :
    deletedFeeds source es (a.size + c.utf8Size) =
      deletedFeeds source es a.size + if c = '\n' ∧ deletesAt es a.size then 1 else 0 := by
  rw [deletedFeeds, List.range_add, List.countP_append, List.countP_map]
  congr 1
  have byte (i : Nat) (hi : i < c.utf8Size) :
      (bytes source)[a.size + i]? = (String.utf8EncodeChar c)[i]? := by
    rw [hs]
    exact getElem?_bytes_char hi
  by_cases feed : c = '\n'
  · have first := byte 0 c.utf8Size_pos
    subst feed
    rw [Nat.add_zero] at first
    cases gone : deletesAt es a.size <;> simp [first, gone, show ('\n').utf8Size = 1 from rfl]
    rfl
  · rw [if_neg fun h => feed h.1, List.countP_eq_zero]
    intro i hi
    rw [List.mem_range] at hi
    simp only [Function.comp_apply, byte i hi, Bool.and_eq_true, decide_eq_true_eq]
    intro counted
    exact feed (eq_of_mem_utf8EncodeChar (List.mem_of_getElem? counted.1))

theorem count_insertedAt {q : Nat} (h : ∀ t, .insert q t ∈ es → '\n' ∉ t) :
    (insertedAt es q).count '\n' = 0 := by
  rw [List.count_eq_zero]
  intro hmem
  obtain ⟨⟨o, t⟩, ht, feed⟩ := List.mem_flatMap.1 hmem
  obtain ⟨hins, rfl⟩ : (o, t) ∈ es.filterMap inserted? ∧ o = q := by simpa using ht
  obtain ⟨e, he, hot⟩ := List.mem_filterMap.1 hins
  cases e with
  | insert =>
    obtain ⟨rfl, rfl⟩ := Prod.mk.inj (Option.some.inj hot)
    exact h _ he feed
  | delete => cases hot

/-- Line feeds are rendered or deleted. -/
theorem count_renderFrom {before : Text} (hs : source = before ++ (a ++ rest))
    (plain : ∀ q, before.size < q → q ≤ (before ++ a).size → (insertedAt es q).count '\n' = 0) :
    (renderFrom es before.size a).count '\n' + deletedFeeds source es (before ++ a).size =
      a.count '\n' + deletedFeeds source es before.size := by
  induction a generalizing before with
  | nil => simp [renderFrom]
  | cons c a ih =>
    have hc := c.utf8Size_pos
    have next := @ih (before ++ [c]) (by simpa using hs) fun q lo hi =>
      plain q (by simp only [size_append, size_cons, size_nil] at lo; omega) (by simpa using hi)
    have here := @deletedFeeds_char source before (a ++ rest) es c hs
    have nothing := plain (before.size + c.utf8Size) (by omega) (by
      simp only [size_append, size_cons]
      omega)
    simp only [size_append, size_cons, size_nil, Nat.add_zero, List.append_assoc] at next
    rw [renderFrom, List.count_append, List.count_append, nothing, size_append, size_cons]
    rw [here] at next
    by_cases feed : c = '\n' <;> cases gone : deletesAt es before.size <;>
      simp [feed, gone] at next ⊢ <;> omega

theorem count_front (hs : source = a ++ rest)
    (plain : ∀ q, 0 < q → q ≤ a.size → (insertedAt es q).count '\n' = 0) :
    (front es a).count '\n' + deletedFeeds source es a.size =
      (insertedAt es 0).count '\n' + a.count '\n' := by
  have feeds := @count_renderFrom source a rest es [] hs plain
  have nothing : deletedFeeds source es (size []) = 0 := rfl
  rw [nothing, Nat.add_zero] at feeds
  rw [front, List.count_append, Nat.add_assoc]
  exact congrArg _ feeds

end Edit

end SketchPrep
