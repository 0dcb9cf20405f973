/-!
Search by halving. On a list whose entries below a bound all come first it finds the bound:
`countBelow_eq` counts them, and `getElem?_countBelow` is the first entry that is not below.
-/

namespace SketchPrep.Halving

variable {α : Type}

/-- How many entries come before the bound, of which only every halving's middle is looked at. -/
def countBelow (below : α → Bool) : List α → Nat
  | [] => 0
  | [x] => if below x then 1 else 0
  | x :: y :: zs =>
    let half := (zs.length + 2) / 2
    let upper := (x :: y :: zs).drop half
    if upper.head?.any below then half + countBelow below upper
    else countBelow below ((x :: y :: zs).take (zs.length + 2 - half))
  termination_by xs => xs.length
  decreasing_by all_goals grind

/-- The entries below the bound all come first. -/
def IsParted (below : α → Bool) (xs : List α) : Prop :=
  xs.Pairwise fun a b => below b → below a

theorem countBelow_eq (below : α → Bool) (xs : List α) (h : IsParted below xs) :
    countBelow below xs = (xs.takeWhile below).length := by
  fun_induction countBelow below xs with
  | case1 => rfl
  | case2 x hx => simp [hx]
  | case3 x hx => simp [hx]
  | case4 x y zs half upper hmid ih =>
    rw [ih (List.Pairwise.sublist (List.drop_sublist ..) h)]
    conv => rhs; rw [← List.take_append_drop half (x :: y :: zs)]
    have hfront : ∀ a ∈ (x :: y :: zs).take half, below a := by
      rw [IsParted, ← List.take_append_drop half (x :: y :: zs), List.pairwise_append] at h
      cases hu : upper with
      | nil => simp [hu] at hmid
      | cons b bs =>
        simp only [hu, List.head?_cons, Option.any_some] at hmid
        exact fun a ha => h.2.2 a ha b (by simp [upper] at hu; simp [hu]) hmid
    rw [List.takeWhile_append_of_pos hfront]
    simp [upper, half]
    omega
  | case5 x y zs half upper hmid ih =>
    rw [ih (List.Pairwise.sublist (List.take_sublist ..) h), ← List.take_takeWhile]
    have hshort : ((x :: y :: zs).takeWhile below).length ≤ half := by
      rw [← List.take_append_drop half (x :: y :: zs), List.takeWhile_append]
      have hstop : (upper.takeWhile below).length = 0 := by
        cases hu : upper with
        | nil => rfl
        | cons b bs => simp [hu] at hmid; simp [hmid]
      have hfront := (List.takeWhile_sublist (l := (x :: y :: zs).take half) below).length_le
      have hhalf := List.length_take_le half (x :: y :: zs)
      split
      · rw [List.length_append]
        simp only [upper] at hstop
        omega
      · omega
    rw [List.length_take]
    simp only [half] at hshort ⊢
    omega

theorem getElem?_countBelow (below : α → Bool) (xs : List α) (h : IsParted below xs) :
    xs[countBelow below xs]? = xs.find? (!below ·) := by
  rw [countBelow_eq below xs h]
  clear h
  induction xs with
  | nil => rfl
  | cons x xs ih => by_cases hx : below x <;> simp [hx, ih]

end SketchPrep.Halving
