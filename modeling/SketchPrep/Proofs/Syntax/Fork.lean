import SketchPrep.Proofs.Syntax.Reading
import SketchPrep.Syntax.Sketch

/-!
Two texts that have the same tokens up to a fork and go on in two ways. The streams of both are read
side by side: up to the fork they look alike, apart from where they stand, if the token before the
fork is a semicolon or a closing brace.
-/

namespace SketchPrep

namespace Token

/-- The same token, `d` bytes further behind in its text. -/
structure Moved (d : Nat) (t t' : Token) : Prop where
  kind : t'.kind = t.kind
  text : t'.text = t.text
  start : t'.start.offset = t.start.offset + d
  stop : t'.stop = t.stop + d

/-- What declarations and statements end with. -/
def closes (t : Token) : Bool := t.kind = .punctuation && (t.text = ";" || t.text = "\x7d")

variable {d : Nat} {t t' : Token}

namespace Moved

variable (h : t.Moved d t')

include h

theorem is (w : String) : t'.is w = t.is w := by simp only [Token.is, h.kind, h.text]

theorem isLiteral : t'.isLiteral = t.isLiteral := by simp only [Token.isLiteral, h.kind, h.text]

theorem isPrimitiveType : t'.isPrimitiveType = t.isPrimitiveType := by
  simp only [Token.isPrimitiveType, h.kind, h.text]

end Moved

theorem not_closes_of_text (h : t.text ≠ ";") (k : t.text ≠ "\x7d") : ¬t.closes := by
  simp [closes, h, k]

theorem not_closes_of_is {w : String} (h : t.is w) (other : w ≠ ";" ∧ w ≠ "\x7d") : ¬t.closes := by
  have text : t.text = w := of_decide_eq_true (Bool.and_eq_true_iff.1 h).2
  exact not_closes_of_text (text ▸ other.1) (text ▸ other.2)

theorem not_closes_of_kind (h : t.kind ≠ .punctuation) : ¬t.closes := by simp [closes, h]

end Token

namespace Syntax

open Token

/-- How the texts go on from the fork, and how many bytes more stand before the tokens of the
second. It begins with nothing but a semicolon there, and no parenthesis that is open at the fork
closes before an arrow in one text alone. -/
structure Fork where
  shift : Nat
  first : List Token
  second : List Token
  arrows : ∀ depth, closesBeforeArrow depth second = closesBeforeArrow depth first
  stops : ∀ t ∈ second.head?, t.is ";"

/-- Tokens of both texts from one place on. -/
inductive Parallel (f : Fork) : List Token → List Token → Prop
  | fork : Parallel f f.first f.second
  | token {t t' : Token} {ts ts' : List Token} (moved : t.Moved f.shift t')
      (marker : t.is "@" → t.kind = .punctuation) (last : ts.length = f.first.length → t.closes)
      (rest : Parallel f ts ts') : Parallel f (t :: ts) (t' :: ts')

variable {f : Fork} {ts ts' : List Token}

namespace Parallel

theorem length_eq (h : Parallel f ts ts') :
    ts.length + f.second.length = ts'.length + f.first.length := by
  induction h with
  | fork => exact Nat.add_comm _ _
  | token _ _ _ _ ih =>
    simp only [List.length_cons]
    omega

theorem le (h : Parallel f ts ts') : f.first.length ≤ ts.length := by
  induction h with
  | fork => exact Nat.le_refl _
  | token _ _ _ _ ih => exact Nat.le_succ_of_le ih

theorem eq_fork (h : Parallel f ts ts') (all : ts.length = f.first.length) :
    ts = f.first ∧ ts' = f.second := by
  cases h with
  | fork => exact ⟨rfl, rfl⟩
  | token _ _ _ rest =>
    have := rest.le
    rw [List.length_cons] at all
    omega

theorem uncons (h : Parallel f ts ts') (lt : f.first.length < ts.length) :
    ∃ t t' us us', ts = t :: us ∧ ts' = t' :: us' ∧ t.Moved f.shift t' ∧
      (t.is "@" → t.kind = .punctuation) ∧ (us.length = f.first.length → t.closes) ∧
      Parallel f us us' := by
  cases h with
  | fork => exact absurd lt (Nat.lt_irrefl _)
  | token moved marker last rest => exact ⟨_, _, _, _, rfl, rfl, moved, marker, last, rest⟩

/-- The token behind one that does not close anything is before the fork as well. -/
theorem behind {t : Token} {us : List Token} (h : Parallel f (t :: us) ts') (ht : ¬t.closes)
    (lt : f.first.length ≤ us.length) : f.first.length < us.length := by
  obtain ⟨a, a', vs, vs', same, -, -, -, last, rest⟩ := h.uncons (Nat.lt_succ_of_le lt)
  obtain ⟨rfl, rfl⟩ := List.cons.inj same
  exact Nat.lt_of_le_of_ne lt fun all => ht (last all.symm)

theorem closesBeforeArrow_eq (h : Parallel f ts ts') (depth : Nat) :
    closesBeforeArrow depth ts' = closesBeforeArrow depth ts := by
  induction h generalizing depth with
  | fork => exact f.arrows depth
  | @token t t' ts ts' moved _ last rest ih =>
    have next : t.is ")" → ts'.head?.any (·.is "->") = ts.head?.any (·.is "->") := by
      intro ht
      have lt : f.first.length < ts.length := Nat.lt_of_le_of_ne rest.le fun all =>
        absurd (last all.symm) (not_closes_of_is ht (by decide))
      obtain ⟨a, a', us, us', rfl, rfl, moved, -⟩ := rest.uncons lt
      simp [moved.is]
    simp only [closesBeforeArrow, moved.is, ih]
    by_cases ht : t.is ")"
    · rw [next ht]
    · simp [ht]

/-- Signs that follow each other without a gap before the fork do so in both texts, and there is a
token before the fork that is none of them. -/
theorem adjacent (sign : String) (other : sign ≠ ";" ∧ sign ≠ "\x7d") (limit : Nat)
    {before before' : Token} (moved : before.Moved f.shift before') (h : Parallel f ts ts')
    (lt : f.first.length < ts.length) :
    let as := adjacent sign limit before ts
    let as' := adjacent sign limit before' ts'
    as'.map Token.text = as.map Token.text ∧
      (as.getLastD before).Moved f.shift (as'.getLastD before') ∧
      Parallel f (ts.drop as.length) (ts'.drop as'.length) ∧
      f.first.length < (ts.drop as.length).length := by
  induction limit generalizing before before' ts ts' with
  | zero => exact ⟨rfl, moved, h, lt⟩
  | succ limit ih =>
    obtain ⟨t, t', us, us', rfl, rfl, this, -, -, rest⟩ := h.uncons lt
    have same : (t'.is sign && before'.stop = t'.start.offset) =
        (t.is sign && before.stop = t.start.offset) := by
      simp only [this.is, this.start, moved.stop, Nat.add_right_cancel_iff]
    simp only [Token.adjacent, same]
    split
    · rename_i touches
      have sign := (Bool.and_eq_true_iff.1 touches).1
      obtain ⟨texts, last, behind, more⟩ :=
        ih this rest (h.behind (not_closes_of_is sign other) rest.le)
      refine ⟨?_, ?_, behind, more⟩
      · rw [List.map_cons, List.map_cons, texts, this.text]
      · simpa only [List.getLastD_cons] using last
    · exact ⟨rfl, moved, h, lt⟩

end Parallel

/-! ### Streams before the fork -/

/-- The streams have not come to the fork yet. -/
structure Within (f : Fork) (s s' : Stream) : Prop where
  parallel : Parallel f s.ahead s'.ahead
  lt : f.first.length < s.left

namespace Within

variable {s s' : Stream} (h : Within f s s')

include h

theorem uncons : ∃ t t' us us', s.ahead = t :: us ∧ s'.ahead = t' :: us' ∧ t.Moved f.shift t' ∧
    (t.is "@" → t.kind = .punctuation) ∧ (us.length = f.first.length → t.closes) ∧
    Parallel f us us' :=
  h.parallel.uncons (s.left_eq ▸ h.lt)

theorem current : s.current.Moved f.shift s'.current := by
  obtain ⟨t, t', us, us', hs, hs', moved, -⟩ := h.uncons
  simpa [Stream.current, Stream.nth, hs, hs'] using moved

theorem marker : s.isAt "@" → s.current.kind = .punctuation := by
  obtain ⟨t, t', us, us', hs, -, -, marker, -⟩ := h.uncons
  simpa [Stream.isAt, Stream.current, Stream.nth, hs] using marker

theorem not_atEnd : ¬s.atEnd := by
  obtain ⟨t, t', us, us', hs, -⟩ := h.uncons
  simp [Stream.atEnd, hs]

theorem not_atEnd' : ¬s'.atEnd := by
  obtain ⟨t, t', us, us', -, hs', -⟩ := h.uncons
  simp [Stream.atEnd, hs']

theorem advance_parallel : Parallel f s.advance.ahead s'.advance.ahead := by
  obtain ⟨t, t', us, us', hs, hs', -, -, -, rest⟩ := h.uncons
  simpa [Stream.advance_ahead, hs, hs'] using rest

theorem advance (ht : ¬s.current.closes) : Within f s.advance s'.advance := by
  refine ⟨h.advance_parallel, ?_⟩
  have ahead := Stream.ahead_eq_cons h.not_atEnd
  have parallel := h.parallel
  rw [ahead] at parallel
  rw [s.advance.left_eq]
  exact parallel.behind ht h.advance_parallel.le

theorem isAt (w : String) : s'.isAt w = s.isAt w := h.current.is w

theorem isAtKind (k : Token.Kind) : s'.isAtKind k = s.isAtKind k := by
  simp only [Stream.isAtKind, h.current.kind]

theorem text : s'.current.text = s.current.text := h.current.text

theorem next (ht : ¬s.current.closes) : (s.nth 1).Moved f.shift (s'.nth 1) := by
  rw [← Stream.current_advance h.not_atEnd, ← Stream.current_advance h.not_atEnd']
  exact (h.advance ht).current

/-- The token behind the current one is looked at only where that closes nothing. -/
theorem and_behind {c : Bool} (hc : c → ¬s.current.closes) {p : Token → Bool}
    (hp : ∀ t t' : Token, t.Moved f.shift t' → p t' = p t) :
    (c && p (s'.nth 1)) = (c && p (s.nth 1)) := by
  cases c with
  | false => rfl
  | true => exact hp _ _ (h.next (hc rfl))

theorem isAt_isNext {w : String} (next : String) (other : w ≠ ";" ∧ w ≠ "\x7d") :
    (s'.isAt w && s'.isNext next) = (s.isAt w && s.isNext next) := by
  rw [h.isAt]
  exact h.and_behind (fun hw => not_closes_of_is hw other) fun _ _ moved => moved.is next

theorem isAt_not_isNext {w : String} (next : String) (other : w ≠ ";" ∧ w ≠ "\x7d") :
    (s'.isAt w && !s'.isNext next) = (s.isAt w && !s.isNext next) := by
  rw [h.isAt]
  exact h.and_behind (p := fun t => !t.is next) (fun hw => not_closes_of_is hw other)
    fun _ _ moved => congrArg not (moved.is next)

theorem isAtKind_isNext {k : Token.Kind} (next : String) (sign : k ≠ .punctuation) :
    (s'.isAtKind k && s'.isNext next) = (s.isAtKind k && s.isNext next) := by
  rw [h.isAtKind]
  exact h.and_behind
    (fun hk => not_closes_of_kind ((of_decide_eq_true hk : s.current.kind = k) ▸ sign))
    fun _ _ moved => moved.is next

theorem operator : s'.operator = s.operator := by
  obtain ⟨t, t', us, us', hs, hs', moved, -, -, rest⟩ := h.uncons
  have here : s.current = t := by simp [Stream.current, Stream.nth, hs]
  have here' : s'.current = t' := by simp [Stream.current, Stream.nth, hs']
  have taken : t'.operator us' = t.operator us := by
    unfold Token.operator
    rw [moved.is, moved.text]
    by_cases angle : t.is ">"
    · have parallel := h.parallel
      rw [hs, hs'] at parallel
      have lt := parallel.behind (not_closes_of_is angle (by decide)) rest.le
      obtain ⟨angles, last, behind, more⟩ := rest.adjacent ">" (by decide) 2 moved lt
      obtain ⟨equals, -⟩ := behind.adjacent "=" (by decide) 1 last more
      have count := congrArg List.length angles
      have count' := congrArg List.length equals
      simp only [List.length_map] at count count'
      simp only [angle, if_true, List.map_append]
      rw [equals, angles, count', count]
    · simp [angle]
  simp only [Stream.operator, h.isAtKind, hs, hs', here, here', List.tail_cons, taken]

end Within

/-- From one place to another as many tokens are taken in both texts. -/
theorem Parallel.left_lt_iff {s s' t t' : Stream} (h : Parallel f s.ahead s'.ahead)
    (k : Parallel f t.ahead t'.ahead) : t'.left < s'.left ↔ t.left < s.left := by
  have before := h.length_eq
  have behind := k.length_eq
  simp only [Stream.left_eq]
  omega

theorem Parallel.eq_second {s s' : Stream} (h : Parallel f s.ahead s'.ahead)
    (lt : ¬f.first.length < s.left) : s'.ahead = f.second := by
  have le := h.le
  rw [← s.left_eq] at le
  exact (h.eq_fork (s.left_eq ▸ Nat.le_antisymm (Nat.not_lt.1 lt) le)).2

theorem Stream.not_closes_of_isAtKind {s : Stream} {k : Token.Kind} (h : s.isAtKind k)
    (sign : k ≠ .punctuation) : ¬s.current.closes :=
  not_closes_of_kind (Stream.kind_of_isAtKind h ▸ sign)

end Syntax

end SketchPrep
