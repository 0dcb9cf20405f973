import SketchPrep.Diagnosis.LastToken

/-!
The place of the last token lies behind a character that has been read and is not blank. Main
statements: `position_of_scan` and `position_le_of_scan`.
-/

namespace SketchPrep.LastToken

/-- The characters `done` were read, and where a token was found one that is not blank was read
next. -/
def Marks (done : List Char) (p : LastToken) : Prop :=
  p.read = done.length ∧
    ∀ k, p.position = some k → ∃ c, done[k]? = some c ∧ isBlank c = false

/-- A character is marked, if at all, when it is read. -/
theorem next_position (read : Nat) (position : Option Nat) (c : Char) (s : State) :
    (next read position c s).2 = position ∨
      ((next read position c s).2 = some read ∧ isBlank c = false) ∨
        (next read position c s).2 = none := by
  cases s <;> grind [next, isBlank]

theorem Marks.step {done : List Char} {p : LastToken} (h : p.Marks done) (c : Char) :
    (p.step c).Marks (done ++ [c]) := by
  obtain ⟨read, marked⟩ := h
  refine ⟨by simp [LastToken.step, read], fun k hk => ?_⟩
  rw [LastToken.step] at hk
  rcases next_position p.read p.position c p.state with same | ⟨same, hc⟩ | same
  · obtain ⟨d, hd, plain⟩ := marked k (same ▸ hk)
    have lt := (List.getElem?_eq_some_iff.1 hd).1
    exact ⟨d, by rw [List.getElem?_append_left lt, hd], plain⟩
  · obtain rfl : k = done.length := read ▸ (Option.some.inj (same.symm.trans hk)).symm
    exact ⟨c, List.getElem?_concat_length, hc⟩
  · cases same.symm.trans hk

theorem Marks.scan {done : List Char} {p : LastToken} (h : p.Marks done) (cs : List Char) :
    ∃ more rest, cs = more ++ rest ∧ (p.scan cs).Marks (done ++ more) := by
  induction cs generalizing done p with
  | nil => exact ⟨[], [], rfl, by rwa [List.append_nil]⟩
  | cons c cs ih =>
    rw [LastToken.scan]
    split
    · exact ⟨[], c :: cs, rfl, by rwa [List.append_nil]⟩
    · obtain ⟨more, rest, rfl, marks⟩ := ih (h.step c)
      rw [List.append_assoc] at marks
      exact ⟨c :: more, rest, rfl, marks⟩

theorem position_of_scan {cs : List Char} {k : Nat} (h : (start.scan cs).position = some k) :
    ∃ c, cs[k]? = some c ∧ isBlank c = false := by
  have fresh : start.Marks [] := ⟨rfl, fun k hk => by cases hk⟩
  obtain ⟨more, rest, whole, -, marked⟩ := fresh.scan cs
  obtain ⟨c, hc, plain⟩ := marked k h
  rw [List.nil_append] at hc
  have lt := (List.getElem?_eq_some_iff.1 hc).1
  exact ⟨c, by rw [whole, List.getElem?_append_left lt, hc], plain⟩

theorem position_le_of_scan {cs : List Char} {k : Nat} (h : (start.scan cs).position = some k) :
    k ≤ cs.length := by
  obtain ⟨c, hc, -⟩ := position_of_scan h
  exact Nat.le_of_lt (List.getElem?_eq_some_iff.1 hc).1

end SketchPrep.LastToken
