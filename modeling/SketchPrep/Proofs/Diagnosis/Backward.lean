import SketchPrep.Diagnosis.LastToken
import SketchPrep.Proofs.Token.Partition

/-!
What reading backwards makes of lines and comments. Main statement: `position_of_plain`, behind a
plain line it leaves out plain blanks and comments just as the lexer does.
-/

namespace SketchPrep.LastToken

open Token.Lexer (IsGap)

/-! ### The whole text -/

/-- Read a text backwards, whether the token is found or not. -/
def readBack (p : LastToken) (cs : Text) : LastToken := cs.foldr (fun c p => p.step c) p

variable {p : LastToken} {c : Char} {cs a b : Text}

@[simp] theorem readBack_nil : p.readBack [] = p := rfl

@[simp] theorem readBack_cons : p.readBack (c :: cs) = (p.readBack cs).step c := rfl

@[simp] theorem step_state : (p.step c).state = (next p.read p.position c p.state).1 := rfl

@[simp] theorem step_position : (p.step c).position = (next p.read p.position c p.state).2 := rfl

@[simp] theorem readBack_append : p.readBack (a ++ b) = (p.readBack b).readBack a :=
  List.foldr_append

theorem readBack_read (p : LastToken) (cs : Text) : (p.readBack cs).read = p.read + cs.length := by
  induction cs with
  | nil => rfl
  | cons c cs ih => rw [readBack_cons, step, ih, List.length_cons, Nat.add_assoc]

theorem step_of_isFound (h : p.isFound) (c : Char) :
    (p.step c).isFound ∧ (p.step c).position = p.position := by
  obtain ⟨state, position, read⟩ := p
  obtain rfl : state = .token := of_decide_eq_true h
  exact ⟨rfl, rfl⟩

/-- Where a token has been found it stays. -/
theorem position_readBack_of_isFound (h : p.isFound) (cs : Text) :
    (p.readBack cs).isFound ∧ (p.readBack cs).position = p.position := by
  induction cs with
  | nil => exact ⟨h, rfl⟩
  | cons c cs ih =>
    obtain ⟨found, same⟩ := step_of_isFound ih.1 c
    exact ⟨found, same.trans ih.2⟩

theorem position_scan (p : LastToken) (cs : Text) :
    (p.scan cs).position = (p.readBack cs.reverse).position := by
  induction cs generalizing p with
  | nil => rfl
  | cons c cs ih =>
    rw [List.reverse_cons, readBack_append, scan]
    split
    · rename_i found
      have stays := step_of_isFound found c
      exact ((position_readBack_of_isFound stays.1 _).2.trans stays.2).symm
    · exact ih (p.step c)

/-! ### Blanks and comments -/

/-- The end of a line in which nothing is taken for a comment: there are no two slashes in it, and
it ends neither in a blank nor as block comments do. -/
structure Shown (w : Text) : Prop where
  last : ∃ u d, w = u ++ [d] ∧ isBlank d = false
  feed : '\n' ∉ w
  slashes : ¬['/', '/'] <:+: w
  star : ¬['*', '/'] <:+ w

/-- What comes next decides whether the slash that was read begins a comment. -/
def stateAt : Text → State
  | ['/'] => .slash
  | '/' :: _ => .candidateOrLineComment
  | _ => .candidate

theorem Shown.tail (h : Shown (c :: cs)) (hcs : cs ≠ []) : Shown cs where
  last := by
    obtain ⟨u, d, whole, hd⟩ := h.last
    cases u with
    | nil => exact absurd (List.cons.inj whole).2 hcs
    | cons e u => exact ⟨u, d, (List.cons.inj whole).2, hd⟩
  feed hmem := h.feed (List.mem_cons_of_mem c hmem)
  slashes inside := h.slashes (List.infix_cons inside)
  star ends := h.star (ends.trans (List.suffix_cons c cs))

theorem readBack_shown (unknown : p.state = .unknown) (h : Shown cs) :
    (p.readBack cs).state = stateAt cs ∧ (p.readBack cs).position = some p.read := by
  induction cs with
  | nil =>
    obtain ⟨u, d, whole, -⟩ := h.last
    simp at whole
  | cons c cs ih =>
    have feed : c ≠ '\n' := fun same => h.feed (same ▸ List.mem_cons_self)
    by_cases hcs : cs = []
    · subst hcs
      obtain ⟨u, d, whole, hd⟩ := h.last
      obtain ⟨rfl, rfl⟩ : u = [] ∧ d = c := by
        cases u <;> simp_all
      by_cases slash : d = '/'
      · simp [unknown, next, slash, stateAt, isBlank]
      · simp [unknown, next, hd, slash, stateAt]
    · obtain ⟨state, position⟩ := ih (h.tail hcs)
      obtain ⟨d, ds, rfl⟩ := List.exists_cons_of_ne_nil hcs
      rw [readBack_cons, step_state, step_position, state, position]
      by_cases slash : d = '/'
      · subst slash
        have once : c ≠ '/' := by
          rintro rfl
          exact h.slashes ⟨[], ds, rfl⟩
        cases ds with
        | nil =>
          have star : c ≠ '*' := by
            rintro rfl
            exact h.star (List.suffix_refl _)
          simp [stateAt, next, feed, once, star]
        | cons e ds => simp [stateAt, next, feed, once]
      · by_cases once : c = '/'
        · simp [stateAt, slash, next, once]
        · simp [stateAt, slash, next, feed, once]

/-- Where the text or its line begins, what was shown last is a token. -/
theorem position_line (unknown : p.state = .unknown) (h : Shown cs) {front : Text}
    (line : ∀ c ∈ front.getLast?, c = '\n') :
    (p.readBack (front ++ cs)).position = some p.read := by
  obtain ⟨state, position⟩ := readBack_shown unknown h
  rw [readBack_append]
  cases hlast : front.getLast? with
  | none =>
    rw [List.getLast?_eq_none_iff.1 hlast]
    exact position
  | some c =>
    obtain ⟨front, rfl⟩ := List.getLast?_eq_some_iff.1 hlast
    obtain rfl := line c hlast
    have found : ((p.readBack cs).step '\n').isFound ∧
        ((p.readBack cs).step '\n').position = some p.read := by
      rw [isFound, step_state, step_position, state, position]
      unfold stateAt
      split <;> simp [next]
    rw [readBack_append]
    exact (position_readBack_of_isFound found.1 front).2.trans found.2

theorem state_blank (unknown : p.state = .unknown) (h : isBlank c) :
    (p.step c).state = .unknown := by
  rw [step_state, unknown, next, if_pos h]

theorem state_lineComment (unknown : p.state = .unknown) {body : Text}
    (h : Shown ('/' :: body)) : (p.readBack ('/' :: '/' :: body)).state = .unknown := by
  rw [readBack_cons, step_state, (readBack_shown unknown h).1]
  cases body <;> simp [stateAt, next]

theorem state_inBlockComment (inside : p.state = .blockComment) {body : Text}
    (h : ¬['/', '*'] <:+: body) : (p.readBack body).state =
      if body.head? = some '*' then .blockCommentStar else .blockComment := by
  induction body with
  | nil => exact inside
  | cons c body ih =>
    have state := ih fun later => h (List.infix_cons later)
    rw [readBack_cons, step_state, state]
    by_cases star : body.head? = some '*'
    · have slash : c ≠ '/' := by
        rintro rfl
        obtain ⟨rest, rfl⟩ := List.head?_eq_some_iff.1 star
        exact h ⟨[], rest, rfl⟩
      by_cases once : c = '*'
      · simp [star, next, once]
      · simp [star, next, once, slash]
    · by_cases once : c = '*'
      · simp [star, next, once]
      · simp [star, next, once]

theorem state_blockComment (unknown : p.state = .unknown) {body : Text}
    (h : ¬['/', '*'] <:+: body) :
    (p.readBack ('/' :: '*' :: (body ++ ['*', '/']))).state = .unknown := by
  have begun : (p.readBack ['*', '/']).state = .blockComment := by
    simp [unknown, next, isBlank]
  have inside := state_inBlockComment begun h
  rw [readBack_cons, step_state, readBack_cons, step_state, readBack_append, inside]
  split <;> rfl

/-- Blanks and comments in which nothing looks like the start of another comment. -/
inductive IsPlain : Text → Prop
  | nil : IsPlain []
  | blank {c : Char} {g : Text} (h : isBlank c) (rest : IsPlain g) : IsPlain (c :: g)
  | line {body blanks g : Text} (h : Shown ('/' :: body)) (hblanks : ∀ c ∈ blanks, isBlank c)
    (feed : '\n' ∉ blanks) (rest : IsPlain g) :
    IsPlain ('/' :: '/' :: (body ++ blanks ++ '\n' :: g))
  | block {body g : Text} (h : ¬['*', '/'] <:+: body ++ ['*']) (opens : ¬['/', '*'] <:+: body)
    (rest : IsPlain g) : IsPlain ('/' :: '*' :: (body ++ '*' :: '/' :: g))

/-- The lexer leaves them out too. -/
theorem IsPlain.isGap {g : Text} (h : IsPlain g) : IsGap false g := by
  induction h with
  | nil => exact .nil
  | blank h _ ih => exact .blank h ih
  | line h _ feed _ ih =>
    refine .line (fun mem => ?_) ih
    rcases List.mem_append.1 mem with mem | mem
    · exact h.feed (List.mem_cons_of_mem _ mem)
    · exact feed mem
  | block h _ _ ih => exact .block h ih

theorem state_blanks (unknown : p.state = .unknown) (h : ∀ c ∈ cs, isBlank c) :
    (p.readBack cs).state = .unknown := by
  induction cs with
  | nil => exact unknown
  | cons c cs ih =>
    exact state_blank (ih fun d hd => h d (List.mem_cons_of_mem c hd)) (h c List.mem_cons_self)

theorem IsPlain.state {g : Text} (h : IsPlain g) (unknown : p.state = .unknown) :
    (p.readBack g).state = .unknown := by
  induction h with
  | nil => exact unknown
  | blank h _ ih => exact state_blank ih h
  | @line body blanks g h hblanks _ _ ih =>
    have whole : '/' :: '/' :: (body ++ blanks ++ '\n' :: g) =
        '/' :: '/' :: body ++ (blanks ++ ['\n']) ++ g := by simp
    rw [whole, readBack_append, readBack_append]
    refine state_lineComment (state_blanks ih fun c hc => ?_) h
    rcases List.mem_append.1 hc with hc | hc
    · exact hblanks c hc
    · obtain rfl := List.mem_singleton.1 hc
      rfl
  | @block body g _ opens _ ih =>
    have whole : '/' :: '*' :: (body ++ '*' :: '/' :: g) =
        '/' :: '*' :: (body ++ ['*', '/']) ++ g := by simp
    rw [whole, readBack_append]
    exact state_blockComment ih opens

/-- Behind a line whose end is shown, plain blanks and comments are left out. -/
theorem position_of_plain {front line g : Text} (hfront : ∀ c ∈ front.getLast?, c = '\n')
    (hline : Shown line) (hg : IsPlain g) :
    (start.scan (front ++ line ++ g).reverse).position = some g.length := by
  have unknown := hg.state (p := start) rfl
  rw [position_scan, List.reverse_reverse, readBack_append,
    position_line unknown hline hfront, readBack_read]
  simp [start]

end SketchPrep.LastToken
