import SketchPrep.Proofs.Token.Measure

/-!
Gaps between tokens. Main statement: `closed_take_gap`, a gap that something follows is read the same
way whatever follows it.
-/

namespace SketchPrep.Token.Lexer

theorem gap_line (cs : Text) : gap ('/' :: '/' :: cs) =
    2 + run (· ≠ '\n') cs + gap (cs.drop (run (· ≠ '\n') cs)) := by
  rw [gap]

example : gap "// a\n b".toList = 6 := by cbv

theorem gap_block (cs : Text) : gap ('/' :: '*' :: cs) =
    2 + blockComment cs + gap (cs.drop (blockComment cs)) := by
  rw [gap]

theorem gap_blank {c : Char} (h : isBlank c) (cs : Text) : gap (c :: cs) = 1 + gap cs := by
  have slash : c ≠ '/' := by
    rintro rfl
    exact absurd h (by decide)
  rw [gap]
  · simp [h]
  · rintro cs rfl
    exact absurd rfl slash
  · rintro cs rfl
    exact absurd rfl slash

theorem gap_le (cs : Text) : gap cs ≤ cs.length := by
  fun_induction gap cs with
  | case1 cs n ih =>
    have le : n ≤ cs.length := run_le ..
    rw [List.length_drop] at ih
    simp only [List.length_cons]
    omega
  | case2 cs n ih =>
    have le : n ≤ cs.length := blockComment_le cs
    rw [List.length_drop] at ih
    simp only [List.length_cons]
    omega
  | case3 c cs _ _ _ ih =>
    simp only [List.length_cons]
    omega
  | case4 => exact Nat.zero_le _
  | case5 => exact Nat.zero_le _

/-- No gap begins with `c`, unless it is a slash before another one or a star. -/
theorem gap_eq_zero {c : Char} {cs : Text} (hc : isBlank c = false)
    (hcs : c = '/' → ∀ d ∈ cs.head?, d ≠ '/' ∧ d ≠ '*') : gap (c :: cs) = 0 := by
  rw [gap]
  · simp [hc]
  · rintro ds rfl rfl
    exact (hcs rfl '/' rfl).1 rfl
  · rintro ds rfl rfl
    exact (hcs rfl '*' rfl).2 rfl

theorem not_of_gap_eq_zero {c : Char} {cs : Text} (h : gap (c :: cs) = 0) :
    isBlank c = false ∧ (c = '/' → ∀ d ∈ cs.head?, d ≠ '/' ∧ d ≠ '*') := by
  constructor
  · refine Bool.eq_false_iff.2 fun blank => ?_
    rw [gap_blank blank] at h
    omega
  · rintro rfl d hd
    obtain ⟨rest, rfl⟩ := List.head?_eq_some_iff.1 hd
    constructor
    · rintro rfl
      rw [gap_line] at h
      omega
    · rintro rfl
      rw [gap_block] at h
      omega

/-- Blanks and comments that end by themselves. -/
def Closed (g : Text) : Prop := ∀ rest, gap (g ++ rest) = g.length + gap rest

theorem closed_nil : Closed [] := by simp [Closed]

theorem Closed.append {g h : Text} (hg : Closed g) (hh : Closed h) : Closed (g ++ h) := by
  intro rest
  rw [List.append_assoc, hg, hh, List.length_append, Nat.add_assoc]

theorem closed_blank {c : Char} (h : isBlank c) : Closed [c] := by
  intro rest
  rw [List.singleton_append, gap_blank h, List.length_singleton]

theorem Closed.gap {g : Text} (h : Closed g) : gap g = g.length := by
  have := h []
  rwa [List.append_nil, show Lexer.gap [] = 0 by rw [Lexer.gap], Nat.add_zero] at this

/-! ### Comments -/

theorem blockComment_eq_zero {cs : Text} (h : blockComment cs = 0) : cs = [] := by
  unfold blockComment at h
  split at h
  · cases h
  · cases h
  · rfl

/-- A comment that something follows is closed. -/
theorem blockComment_append {cs : Text} (h : cs.drop (blockComment cs) ≠ []) (rest : Text) :
    blockComment (cs.take (blockComment cs) ++ rest) = blockComment cs := by
  fun_induction blockComment cs with
  | case1 => rfl
  | case2 c cs hno ih =>
    rw [List.drop_succ_cons] at h
    rw [List.take_succ_cons, List.cons_append, blockComment, ih h]
    rintro ds rfl hslash
    cases cs with
    | nil => simp at h
    | cons d cs =>
      obtain ⟨n, hn⟩ : ∃ n, blockComment (d :: cs) = n + 1 := Nat.exists_eq_succ_of_ne_zero
        fun hzero => by simpa using blockComment_eq_zero hzero
      rw [hn, List.take_succ_cons, List.cons_append] at hslash
      obtain ⟨rfl, -⟩ := List.cons.inj hslash
      exact hno cs rfl rfl
  | case3 => simp at h

theorem blockComment_of_closed {cs : Text} (h : ['*', '/'] <:+: cs) (x : Text) :
    blockComment (cs ++ x) = blockComment cs := by
  fun_induction blockComment cs with
  | case1 => rfl
  | case2 c cs hno ih =>
    have inside : ['*', '/'] <:+: cs := by
      refine (List.infix_cons_iff.1 h).resolve_left ?_
      rintro ⟨t, ht⟩
      obtain ⟨rfl, rfl⟩ := List.cons.inj ht
      exact hno t rfl rfl
    rw [List.cons_append, blockComment, ih inside]
    rintro ds rfl hslash
    cases cs with
    | nil => exact absurd (List.infix_nil.1 inside) (by simp)
    | cons d cs =>
      obtain ⟨rfl, -⟩ := List.cons.inj hslash
      exact hno cs rfl rfl
  | case3 => exact absurd (List.infix_nil.1 h) (by simp)

theorem blockComment_of_open {cs x : Text} (h : ¬['*', '/'] <:+: cs) (hx : x.head? ≠ some '/') :
    blockComment (cs ++ x) = cs.length + blockComment x := by
  induction cs with
  | nil => rw [List.nil_append, List.length_nil, Nat.zero_add]
  | cons c cs ih =>
    have inside := ih fun hcs => h (List.infix_cons_iff.2 (.inr hcs))
    rw [List.cons_append, blockComment, inside, List.length_cons]
    · omega
    · rintro ds rfl hslash
      cases cs with
      | nil => exact hx (by rw [List.nil_append] at hslash; rw [hslash]; rfl)
      | cons d cs =>
        obtain ⟨rfl, -⟩ := List.cons.inj hslash
        exact h ⟨[], cs, rfl⟩

theorem blockComment_eq_length {cs : Text} (h : ¬['*', '/'] <:+: cs) :
    blockComment cs = cs.length := by
  have := blockComment_of_open (x := []) h (by simp)
  rwa [List.append_nil, show blockComment [] = 0 from rfl, Nat.add_zero] at this

/-- A comment that closes where its text ends. -/
theorem closed_comment {body : Text} (h : ∀ rest, blockComment (body ++ rest) = body.length) :
    Closed ('/' :: '*' :: body) := by
  intro rest
  rw [List.cons_append, List.cons_append, gap_block, h, List.drop_left]
  simp only [List.length_cons]
  omega

theorem closed_take_gap {cs : Text} (h : cs.drop (gap cs) ≠ []) :
    Closed (cs.take (gap cs)) ∧ gap (cs.drop (gap cs)) = 0 := by
  fun_induction gap cs with
  | case1 cs n ih =>
    have cut : ('/' :: '/' :: cs).drop (2 + n + gap (cs.drop n)) =
        (cs.drop n).drop (gap (cs.drop n)) := by
      rw [List.drop_drop, show 2 + n + gap (cs.drop n) = n + gap (cs.drop n) + 1 + 1 by omega]
      rfl
    have whole : ('/' :: '/' :: cs).take (2 + n + gap (cs.drop n)) =
        '/' :: '/' :: (cs.take n ++ (cs.drop n).take (gap (cs.drop n))) := by
      rw [← List.take_add, show 2 + n + gap (cs.drop n) = n + gap (cs.drop n) + 1 + 1 by omega]
      rfl
    rw [cut] at h ⊢
    rw [whole]
    obtain ⟨closed, zero⟩ := ih h
    refine ⟨fun rest => ?_, zero⟩
    have ends := @head?_drop_run (· ≠ '\n') cs
    have line := forall_mem_of_run (p := (· ≠ '\n')) (Nat.le_refl (run (· ≠ '\n') cs))
    change ∀ c ∈ (cs.drop n).head?, decide (c ≠ '\n') = false at ends
    change ∀ c ∈ cs.take n, decide (c ≠ '\n') = true at line
    generalize cs.drop n = ds at *
    -- the line feed that ends the comment belongs to the gap
    have first : ∀ c ∈ (ds.take (gap ds) ++ rest).head?, decide (c ≠ '\n') = false := by
      cases ds with
      | nil => simp at h
      | cons d ds =>
        have feed : d = '\n' := by simpa using ends d rfl
        subst feed
        rw [gap_blank (by decide), Nat.add_comm]
        simp
    have measured := run_append line first
    rw [List.cons_append, List.cons_append, List.append_assoc, gap_line, measured,
      List.drop_left, closed]
    simp only [List.length_cons, List.length_append]
    omega
  | case2 cs n ih =>
    have cut : ('/' :: '*' :: cs).drop (2 + n + gap (cs.drop n)) =
        (cs.drop n).drop (gap (cs.drop n)) := by
      rw [List.drop_drop, show 2 + n + gap (cs.drop n) = n + gap (cs.drop n) + 1 + 1 by omega]
      rfl
    have whole : ('/' :: '*' :: cs).take (2 + n + gap (cs.drop n)) =
        '/' :: '*' :: (cs.take n ++ (cs.drop n).take (gap (cs.drop n))) := by
      rw [← List.take_add, show 2 + n + gap (cs.drop n) = n + gap (cs.drop n) + 1 + 1 by omega]
      rfl
    rw [cut] at h ⊢
    rw [whole]
    obtain ⟨closed, zero⟩ := ih h
    have behind : cs.drop (blockComment cs) ≠ [] := by
      intro hnil
      change cs.drop n = [] at hnil
      simp [hnil] at h
    have closes : Closed ('/' :: '*' :: cs.take n) := closed_comment fun rest => by
      rw [blockComment_append behind, List.length_take, Nat.min_eq_left (blockComment_le cs)]
    exact ⟨closes.append closed, zero⟩
  | case3 c cs _ _ hblank ih =>
    rw [Nat.add_comm, List.drop_succ_cons] at h
    obtain ⟨closed, zero⟩ := ih h
    rw [Nat.add_comm, List.take_succ_cons, List.drop_succ_cons]
    exact ⟨(closed_blank hblank).append closed, zero⟩
  | case4 c cs hline hblock hblank =>
    refine ⟨closed_nil, ?_⟩
    rw [List.drop_zero, gap]
    · simp [hblank]
    · exact hline
    · exact hblock
  | case5 => simp at h

/-! ### Gaps at the end of a text -/

/-- Behind the gap `g` the text `x` is read as it is alone, or it stands in a comment that `g`
leaves open. -/
def EndsOrOpens (g x : Text) : Prop :=
  gap (g ++ x) = g.length + gap x ∨
    ∃ b body, g = b ++ '/' :: '*' :: body ∧ ¬['*', '/'] <:+: body ∧
      (¬['*', '/'] <:+: x → gap (g ++ x) = (g ++ x).length)

theorem EndsOrOpens.prepend {f g x : Text} (h : EndsOrOpens g x)
    (hf : gap (f ++ (g ++ x)) = f.length + gap (g ++ x)) : EndsOrOpens (f ++ g) x := by
  rw [EndsOrOpens, List.append_assoc, hf]
  rcases h with h | ⟨b, body, rfl, opened, swallowed⟩
  · left
    rw [h, List.length_append, Nat.add_assoc]
  · right
    refine ⟨f ++ b, body, by simp, opened, fun hx => ?_⟩
    rw [swallowed hx]
    simp only [List.length_append]

/-- Only a block comment is left open in front of a line feed. -/
theorem endsOrOpens {g x : Text} (h : gap g = g.length) (hx : x.head? = some '\n') :
    EndsOrOpens g x := by
  fun_induction gap g with
  | case1 cs n ih =>
    have le : n ≤ cs.length := run_le ..
    have whole : '/' :: '/' :: cs = '/' :: '/' :: cs.take n ++ cs.drop n := by simp
    have rest : gap (cs.drop n) = (cs.drop n).length := by
      rw [List.length_drop]
      simp only [List.length_cons] at h
      omega
    have line : run (· ≠ '\n') (cs ++ x) = n := by
      refine run_append_of_head (fun c hc => ?_) cs
      obtain rfl := Option.some.inj (hx.symm.trans hc)
      decide
    rw [whole]
    refine (ih rest).prepend ?_
    have joined : '/' :: '/' :: cs.take n ++ (cs.drop n ++ x) = '/' :: '/' :: (cs ++ x) := by
      rw [← List.append_assoc, ← whole]
      rfl
    rw [joined, gap_line, line, List.drop_append_of_le_length le]
    simp only [List.length_cons, List.length_take, Nat.min_eq_left le]
    omega
  | case2 cs n ih =>
    by_cases closed : ['*', '/'] <:+: cs
    · have le : n ≤ cs.length := blockComment_le cs
      have whole : '/' :: '*' :: cs = '/' :: '*' :: cs.take n ++ cs.drop n := by simp
      have rest : gap (cs.drop n) = (cs.drop n).length := by
        rw [List.length_drop]
        simp only [List.length_cons] at h
        omega
      rw [whole]
      refine (ih rest).prepend ?_
      have joined : '/' :: '*' :: cs.take n ++ (cs.drop n ++ x) = '/' :: '*' :: (cs ++ x) := by
        rw [← List.append_assoc, ← whole]
        rfl
      rw [joined, gap_block, blockComment_of_closed closed x, List.drop_append_of_le_length le]
      simp only [List.length_cons, List.length_take, Nat.min_eq_left le]
      omega
    · refine .inr ⟨[], cs, rfl, closed, fun hno => ?_⟩
      have all : blockComment (cs ++ x) = (cs ++ x).length := by
        rw [blockComment_of_open closed (by rw [hx]; decide), blockComment_eq_length hno,
          List.length_append]
      rw [List.cons_append, List.cons_append, gap_block, all, List.drop_length]
      simp only [List.length_cons, gap]
      omega
  | case3 c cs _ _ hblank ih =>
    have rest : gap cs = cs.length := by
      simp only [List.length_cons] at h
      omega
    exact @EndsOrOpens.prepend [c] cs x (ih rest) (gap_blank hblank (cs ++ x))
  | case4 => simp at h
  | case5 => exact .inl (by simp)

end SketchPrep.Token.Lexer
