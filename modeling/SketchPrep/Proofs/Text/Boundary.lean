import SketchPrep.Text.Basic

/-!
The offsets at which a text can be cut, and its bytes. Main statements: `isBoundary_iff`, a boundary
is the size of a part at the front; `exists_append_of_size_le`, of two parts at the front the
shorter one is the start of the longer one; `flatMap_getElem?_bytes`, the bytes at the places of a
part are the bytes of that part.
-/

namespace SketchPrep.Text

theorem isBoundary_iff {cs : Text} {n : Nat} :
    IsBoundary cs n ↔ ∃ a b, cs = a ++ b ∧ size a = n := by
  rw [IsBoundary, Option.isSome_iff_exists]
  constructor
  · rintro ⟨⟨a, b⟩, h⟩
    exact ⟨a, b, split?_eq_some.1 h⟩
  · rintro ⟨a, b, h⟩
    exact ⟨(a, b), split?_eq_some.2 h⟩

theorem exists_append_of_size_le {a b x y : Text} (h : a ++ b = x ++ y) (hs : size a ≤ size x) :
    ∃ k, x = a ++ k ∧ b = k ++ y := by
  rcases List.append_eq_append_iff.1 h with ⟨k, hx, hb⟩ | ⟨k, ha, hy⟩
  · exact ⟨k, hx, hb⟩
  · have hk : k = [] := by
      rw [← size_eq_zero_iff]
      simp only [ha, size_append] at hs
      omega
    subst hk
    exact ⟨[], by simpa using ha.symm, by simpa using hy.symm⟩

/-- The same offset cuts a text in one way only. -/
theorem append_inj_of_size {a b x y : Text} (h : a ++ b = x ++ y) (hs : size a = size x) :
    a = x ∧ b = y := by
  obtain ⟨k, rfl, rfl⟩ := exists_append_of_size_le h (Nat.le_of_eq hs)
  have hk : k = [] := by
    rw [← size_eq_zero_iff]
    simp only [size_append] at hs
    omega
  simp [hk]

theorem IsBoundary.le_size {cs : Text} {n : Nat} (h : IsBoundary cs n) : n ≤ size cs := by
  obtain ⟨a, b, rfl, rfl⟩ := isBoundary_iff.1 h
  simp

theorem isBoundary_zero (cs : Text) : IsBoundary cs 0 := isBoundary_iff.2 ⟨[], cs, rfl, rfl⟩

theorem isBoundary_size (cs : Text) : IsBoundary cs (size cs) :=
  isBoundary_iff.2 ⟨cs, [], by simp, rfl⟩

/-- No boundary lies strictly inside a character. -/
theorem IsBoundary.outside {a b : Text} {c : Char} {n : Nat} (h : IsBoundary (a ++ c :: b) n) :
    n ≤ size a ∨ size a + c.utf8Size ≤ n := by
  obtain ⟨x, y, hxy, rfl⟩ := isBoundary_iff.1 h
  by_cases hle : size x ≤ size a
  · exact .inl hle
  · right
    obtain ⟨k, rfl, hk⟩ := exists_append_of_size_le hxy (Nat.le_of_not_le hle)
    cases k with
    | nil => simp at hle
    | cons d k =>
      obtain ⟨rfl, -⟩ := List.cons.inj hk
      simp only [size_append, size_cons]
      omega

theorem isBoundary_append_right {a b : Text} {n : Nat} (h : IsBoundary (a ++ b) n)
    (hn : size a ≤ n) : ∃ k y, b = k ++ y ∧ size a + size k = n := by
  obtain ⟨x, y, hxy, rfl⟩ := isBoundary_iff.1 h
  obtain ⟨k, rfl, hb⟩ := exists_append_of_size_le hxy hn
  exact ⟨k, y, hb, by simp⟩

theorem slice?_isSome {cs : Text} {lo hi : Nat} (hlo : IsBoundary cs lo) (hhi : IsBoundary cs hi)
    (h : lo ≤ hi) : (slice? cs lo hi).isSome := by
  obtain ⟨a, b, rfl, rfl⟩ := isBoundary_iff.1 hlo
  obtain ⟨k, y, rfl, rfl⟩ := isBoundary_append_right hhi h
  rw [← List.append_assoc, slice?_append]
  rfl

/-! ### Bytes -/

/-- The UTF-8 form. -/
def bytes (cs : Text) : List UInt8 := cs.flatMap String.utf8EncodeChar

@[simp] theorem bytes_nil : bytes [] = [] := rfl

@[simp] theorem bytes_append (a b : Text) : bytes (a ++ b) = bytes a ++ bytes b := by
  simp [bytes]

@[simp] theorem length_bytes (cs : Text) : (bytes cs).length = size cs := by
  induction cs with
  | nil => rfl
  | cons c cs ih => simpa [bytes] using ih

theorem flatMap_getElem?_range' {α : Type} (before part behind : List α) :
    (List.range' before.length part.length).flatMap
      (fun i => (before ++ part ++ behind)[i]?.toList) = part := by
  induction part generalizing before with
  | nil => rfl
  | cons x part ih =>
    have hx : (before ++ x :: part ++ behind)[before.length]? = some x := by simp
    have hrest := ih (before ++ [x])
    simp only [List.length_append, List.length_cons, List.length_nil, List.append_assoc,
      List.cons_append, List.nil_append] at hrest hx
    simp only [List.length_cons, List.range'_succ, List.flatMap_cons, List.append_assoc,
      List.cons_append, hx, hrest, Option.toList_some, List.nil_append]

theorem flatMap_getElem?_bytes (before part behind : Text) :
    (List.range' (size before) (size part)).flatMap
      (fun i => (bytes (before ++ part ++ behind))[i]?.toList) = bytes part := by
  have h := flatMap_getElem?_range' (bytes before) (bytes part) (bytes behind)
  simpa only [length_bytes, bytes_append] using h

end SketchPrep.Text
