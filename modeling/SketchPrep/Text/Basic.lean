/-!
Texts are lists of characters, and offsets into them count UTF-8 bytes. Only an offset between
two characters can be cut at: `split?` and `slice?` are undefined inside a character and past the
end. Main statement: `split?_eq_some`, a cut loses nothing and its left part has the asked size.
-/

namespace SketchPrep

abbrev Text := List Char

namespace Text

/-- Bytes of the UTF-8 form. -/
def size : Text → Nat
  | [] => 0
  | c :: cs => c.utf8Size + size cs

@[simp] theorem size_nil : size [] = 0 := rfl

@[simp] theorem size_cons (c : Char) (cs : Text) : size (c :: cs) = c.utf8Size + size cs := rfl

@[simp] theorem size_append (as bs : Text) : size (as ++ bs) = size as + size bs := by
  induction as with
  | nil => simp
  | cons a as ih => simp [ih, Nat.add_assoc]

theorem size_eq_zero_iff {cs : Text} : size cs = 0 ↔ cs = [] := by
  cases cs with
  | nil => simp
  | cons c cs =>
    have h := c.utf8Size_pos
    simp only [size_cons, reduceCtorEq, iff_false]
    omega

/-- The text before byte offset `n` and the text from it on. -/
def split? : Text → Nat → Option (Text × Text)
  | cs, 0 => some ([], cs)
  | [], _ + 1 => none
  | c :: cs, n =>
    if c.utf8Size ≤ n then (split? cs (n - c.utf8Size)).map fun (a, b) => (c :: a, b) else none

theorem split?_zero (cs : Text) : split? cs 0 = some ([], cs) := by
  cases cs <;> rfl

theorem split?_eq_some {cs a b : Text} {n : Nat} :
    split? cs n = some (a, b) ↔ cs = a ++ b ∧ size a = n := by
  constructor
  · intro h
    fun_induction split? cs n generalizing a b with
    | case1 => simp_all
    | case2 => simp at h
    | case3 c cs n _ hc ih =>
      obtain ⟨⟨x, y⟩, hxy, hab⟩ := Option.map_eq_some_iff.1 h
      obtain ⟨rfl, rfl⟩ := Prod.mk.inj hab
      obtain ⟨rfl, hx⟩ := ih hxy
      simp only [List.cons_append, size_cons, hx, true_and]
      omega
    | case4 => simp at h
  · rintro ⟨rfl, rfl⟩
    induction a with
    | nil => exact split?_zero b
    | cons c a ih =>
      have hc := c.utf8Size_pos
      obtain ⟨m, hm⟩ : ∃ m, size (c :: a) = m + 1 :=
        ⟨c.utf8Size + size a - 1, by simp; omega⟩
      rw [hm, List.cons_append, split?]
      · rw [if_pos (by simp at hm; omega),
          show m + 1 - c.utf8Size = size a by simp at hm; omega, ih]
        rfl
      · simp

/-- Whether the text can be cut at byte offset `n`. -/
def IsBoundary (cs : Text) (n : Nat) : Prop := (split? cs n).isSome

instance (cs : Text) (n : Nat) : Decidable (IsBoundary cs n) :=
  inferInstanceAs (Decidable ((split? cs n).isSome = true))

theorem isBoundary_size_left (a b : Text) : IsBoundary (a ++ b) (size a) := by
  simp [IsBoundary, split?_eq_some.2 ⟨rfl, rfl⟩]

/-- The bytes from `lo` up to `hi`. -/
def slice? (cs : Text) (lo hi : Nat) : Option Text :=
  if lo ≤ hi then
    (split? cs lo).bind fun (_, rest) => (split? rest (hi - lo)).map Prod.fst
  else none

theorem slice?_append (a b c : Text) :
    slice? (a ++ b ++ c) (size a) (size a + size b) = some b := by
  have hb : split? (b ++ c) (size b) = some (b, c) := split?_eq_some.2 ⟨rfl, rfl⟩
  have ha : split? (a ++ (b ++ c)) (size a) = some (a, b ++ c) := split?_eq_some.2 ⟨rfl, rfl⟩
  simp [slice?, ha, hb]

/-- As `slice?`, and empty where that is undefined. -/
def slice (cs : Text) (lo hi : Nat) : Text := (slice? cs lo hi).getD []

/-- The text from byte offset `n` on. -/
def drop? (cs : Text) (n : Nat) : Option Text := (split? cs n).map Prod.snd

end Text

end SketchPrep
