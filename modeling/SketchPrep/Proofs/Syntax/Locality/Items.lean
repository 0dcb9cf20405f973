import Mathlib.Data.List.Forall2
import SketchPrep.Proofs.Syntax.Closing
import SketchPrep.Proofs.Syntax.Locality.Sketch

/-!
The items of a sketch before and behind a fork. Main statements: `ReadsItems.follow`, items before a
fork are read in both texts, each with its span moved as its tokens are;
`Stream.AtSemicolon.item`, a semicolon by itself is the empty statement.
-/

namespace SketchPrep

/-- The same part of a text, `d` bytes further behind. -/
def Span.behind (d : Nat) (a : Span) : Span := ⟨a.lo + d, a.hi + d⟩

/-- The same item up to spans, `d` bytes further behind. -/
structure Item.Moved (d : Nat) (i i' : Item) : Prop where
  same : i'.unspanned = i.unspanned
  span : i'.span = i.span.behind d

namespace Syntax

open Reader

variable {f : Fork} {g : Grammar} {n : Nat} {s s' t t' u : Stream} {ts ts' us us' : List Token}

/-! ### Items one after the other -/

/-- From `s` to `t` these items are read. -/
inductive ReadsItems (g : Grammar) : List Item → Stream → Stream → Prop
  | nil (s : Stream) : ReadsItems g [] s s
  | cons {i : Item} {is : List Item} {s t u : Stream} (first : item g s = .ok (i, t))
    (rest : ReadsItems g is t u) : ReadsItems g (i :: is) s u

variable {i : Item} {is js : List Item}

theorem readsItems_append :
    ReadsItems g (is ++ js) s u ↔ ∃ t, ReadsItems g is s t ∧ ReadsItems g js t u := by
  induction is generalizing s with
  | nil =>
    constructor
    · exact fun h => ⟨s, .nil s, h⟩
    · rintro ⟨t, ⟨⟩, h⟩
      exact h
  | cons i is ih =>
    constructor
    · rintro (_ | ⟨first, rest⟩)
      obtain ⟨t, these, others⟩ := ih.1 rest
      exact ⟨t, .cons first these, others⟩
    · rintro ⟨t, _ | ⟨first, these⟩, others⟩
      exact .cons first (ih.2 ⟨t, these, others⟩)

theorem Grammar.sound_byLength {b : Nat → Grammar} (h : ∀ n, (b n).Sound) : (byLength b).Sound where
  type s := (h s.left).type s
  unary s := (h s.left).unary s
  binary least s := (h s.left).binary least s
  climbs least s := (h s.left).climbs least s
  conditional s := (h s.left).conditional s
  expr s := (h s.left).expr s
  varInit s := (h s.left).varInit s
  block s := (h s.left).block s
  statement s := (h s.left).statement s
  blockStatement s := (h s.left).blockStatement s
  member name s := (h s.left).member name s

theorem Grammar.sound_whole : Grammar.whole.Sound :=
  sound_byLength fun n => sound_grammarBelow (n + 1)

theorem ReadsItems.read (hg : g.Sound) (h : ReadsItems g is s t) : s.Read (is.map .item) t := by
  induction h with
  | nil s => exact .nil s
  | cons first _ ih => exact (reads_item hg _ _ _ first).append ih

section

variable (hg : g.Agree (fun _ => True) (fun _ => True) n g) (le : s.left ≤ n)

include hg le

theorem left_item_lt (h : item g s = .ok (i, t)) : t.left < s.left :=
  ((alike_item hg trivial le).of_ok h).2

theorem ReadsItems.left_le (h : ReadsItems g is s t) : t.left + is.length ≤ s.left := by
  induction h with
  | nil s => exact Nat.le_refl _
  | cons first _ ih =>
    have lt := left_item_lt hg le first
    have := ih (by omega)
    rw [List.length_cons]
    omega

theorem manyWhile_item_eq_ok :
    manyWhile (!·.atEnd) (item g) s = .ok (is, t) ↔ ReadsItems g is s t ∧ t.atEnd := by
  constructor
  · intro h
    fun_induction manyWhile (!·.atEnd) (item g) s generalizing is t with
    | case1 => cases h
    | case2 => cases h
    | case3 s here i next first lt is last rest ih =>
      obtain ⟨rfl, rfl⟩ := Prod.mk.inj (Except.ok.inj h)
      obtain ⟨reads, ends⟩ := ih (by omega) rest
      exact ⟨.cons first reads, ends⟩
    | case4 s here i next first last => exact absurd (left_item_lt hg le first) last
    | case5 s here =>
      obtain ⟨rfl, rfl⟩ := Prod.mk.inj (Except.ok.inj h)
      exact ⟨.nil s, by simpa using here⟩
  · rintro ⟨reads, ends⟩
    induction reads with
    | nil s => exact manyWhile_stop (by simpa using ends)
    | @cons i is s t u first _ ih =>
      have lt := left_item_lt hg le first
      refine manyWhile_turn ?_ first lt (ih (by omega) ends)
      have here : ¬s.atEnd := fun none => by
        rw [s.left_eq, Stream.atEnd_iff.1 none] at lt
        exact Nat.not_lt_zero _ lt
      simpa using here

end

/-! ### Tokens that are taken -/

theorem Parallel.of_moved (moved : List.Forall₂ (Token.Moved f.shift) ts ts')
    (markers : ∀ t ∈ ts, t.is "@" → t.kind = .punctuation)
    (closes : ∀ t ∈ ts.getLast?, t.closes) :
    Parallel f (ts ++ f.first) (ts' ++ f.second) := by
  induction moved with
  | nil => exact .fork
  | @cons t t' ts ts' moved _ ih =>
    obtain ⟨marker, others⟩ := List.forall_mem_cons.1 markers
    refine .token moved marker (fun last => closes t ?_) (ih others fun u hu => closes u ?_)
    · have length : (ts ++ f.first).length = f.first.length := last
      rw [List.length_append] at length
      obtain rfl := List.eq_nil_of_length_eq_zero (l := ts) (by omega)
      rfl
    · rw [List.getLast?_cons, Option.mem_def.1 hu]
      rfl

theorem Parallel.split (h : Parallel f (ts ++ us) (ts' ++ us')) (len : ts.length = ts'.length)
    (le : f.first.length ≤ us.length) :
    List.Forall₂ (Token.Moved f.shift) ts ts' ∧ Parallel f us us' := by
  induction ts generalizing ts' with
  | nil =>
    obtain rfl := List.eq_nil_of_length_eq_zero len.symm
    exact ⟨.nil, h⟩
  | cons t ts ih =>
    obtain ⟨t', ts', rfl⟩ := List.exists_cons_of_length_eq_add_one len.symm
    rw [List.cons_append, List.cons_append] at h
    obtain ⟨a, a', vs, vs', same, same', moved, -, -, rest⟩ := h.uncons (by
      rw [List.length_cons, List.length_append]
      omega)
    obtain ⟨rfl, rfl⟩ := List.cons.inj same
    obtain ⟨rfl, rfl⟩ := List.cons.inj same'
    obtain ⟨others, behind⟩ := ih rest (Nat.succ.inj len)
    exact ⟨.cons moved others, behind⟩

theorem Parallel.lastStop (h : Parallel f s.ahead s'.ahead) (k : Parallel f t.ahead t'.ahead)
    (took : s.Took ts t) (took' : s'.Took ts' t') (some : ts ≠ []) :
    t'.lastStop = t.lastStop + f.shift := by
  have before := h.length_eq
  have behind := k.length_eq
  rw [took.ahead, took'.ahead] at h before
  simp only [List.length_append] at before
  obtain ⟨moved, -⟩ := h.split (by omega) k.le
  have reversed := List.forall₂_reverse_iff.2 moved
  rw [took.lastStop, took'.lastStop, ← List.head?_reverse, ← List.head?_reverse]
  cases hr : ts.reverse with
  | nil => exact absurd (List.reverse_eq_nil_iff.1 hr) some
  | cons a as =>
    rw [hr] at reversed
    cases hr' : ts'.reverse with
    | nil =>
      rw [hr'] at reversed
      cases reversed
    | cons a' as' =>
      rw [hr'] at reversed
      cases reversed with
      | cons moved _ => exact moved.stop

/-! ### Both texts -/

theorem item_moved (hg : g.Local f n) (sound : g.Sound) (le : s.left ≤ n)
    (h : item g s = .ok (i, t)) (parallel : Parallel f s.ahead s'.ahead)
    (before : f.first.length ≤ t.left) :
    ∃ i' t', item g s' = .ok (i', t') ∧ i.Moved f.shift i' ∧ Parallel f t.ahead t'.ahead := by
  have lt := left_item_lt hg.agree le h
  obtain ⟨i', t', h', same, behind⟩ := (follows_item hg le).reads parallel h before
  have within : Within f s s' := ⟨parallel, by omega⟩
  obtain ⟨ts, took, derives⟩ := reads_item sound _ _ _ h
  obtain ⟨ts', took', derives'⟩ := reads_item sound _ _ _ h'
  have lastStop := parallel.lastStop behind took took' (derives.spells.ne_nil (by simp))
  have span := Stream.Read.span ⟨ts, took, derives⟩ rfl
  have span' := Stream.Read.span ⟨ts', took', derives'⟩ rfl
  refine ⟨i', t', h', ⟨same.symm, ?_⟩, behind⟩
  rw [span, span', Stream.spanFrom, Stream.spanFrom, lastStop, Stream.lo, Stream.lo,
    within.current.start]
  rfl

theorem ReadsItems.follow (hg : g.Local f n) (sound : g.Sound) (h : ReadsItems g is s t)
    (le : s.left ≤ n) (parallel : Parallel f s.ahead s'.ahead)
    (before : f.first.length ≤ t.left) :
    ∃ is' t', ReadsItems g is' s' t' ∧ List.Forall₂ (Item.Moved f.shift) is is' ∧
      Parallel f t.ahead t'.ahead := by
  induction h generalizing s' with
  | nil s => exact ⟨[], s', .nil s', .nil, parallel⟩
  | @cons i is s t u first rest ih =>
    have lt := left_item_lt hg.agree le first
    have others := rest.left_le hg.agree (by omega)
    obtain ⟨i', t', first', moved, inner⟩ := item_moved hg sound le first parallel (by omega)
    obtain ⟨is', u', rest', same, behind⟩ := ih (by omega) inner before
    exact ⟨i' :: is', u', .cons first' rest', .cons moved same, behind⟩

/-! ### The empty statement -/

theorem begin_bind {α : Type} {r : Nat → Reader α} :
    (beginDecision >>= r) s = r s.lo s.begun := rfl

theorem foresee_eq_false {p : Reader Bool} (h : ∀ u, p s ≠ .ok (true, u)) :
    foresee p s = .ok (false, s) := by
  unfold foresee
  split
  · rename_i found u hu
    cases found with
    | false => rfl
    | true => exact absurd hu (h u)
  · rfl

/-- What comes next is a semicolon. -/
structure Stream.AtSemicolon (s : Stream) : Prop where
  kind : s.current.kind = .punctuation
  text : s.current.text = ";"

namespace Stream.AtSemicolon

variable (h : s.AtSemicolon)

include h

theorem isAt (w : String) : s.isAt w = decide (";" = w) := by
  simp [Stream.isAt, Token.is, h.kind, h.text]

theorem isAtKind {k : Token.Kind} (hk : k ≠ .punctuation) : s.isAtKind k = false := by
  simp [Stream.isAtKind, h.kind, hk.symm]

theorem modifiers : modifiers g s = .ok ([], s) :=
  (Stream.isPlain_of_text (by rw [h.text]; decide)).modifiers

theorem typeRef_ne_ok (x : TypeRef × Stream) : typeRef g s ≠ .ok x := by
  intro read
  obtain ⟨a, u, read, -⟩ := bind_eq_ok.1 read
  simp only [elementType, get_bind] at read
  obtain ⟨k, v, read, -⟩ := bind_eq_ok.1 read
  have primitive : s.current.isPrimitiveType = false := by simp [Token.isPrimitiveType, h.kind]
  simp [typeKind, get_bind, eat_bind, primitive, h.isAt, h.isAtKind, failWith] at read

theorem startsTypeDecl : startsTypeDecl g s = .ok (false, s) := by
  refine foresee_eq_false fun u read => ?_
  rw [bind_of_ok h.modifiers] at read
  have found := (Prod.mk.inj (Except.ok.inj read)).1
  simp [isAtTypeKeyword, h.isAt] at found

theorem startsLocalVar : startsLocalVar g s = .ok (false, s) := by
  refine foresee_eq_false fun u read => ?_
  rw [bind_of_ok h.modifiers] at read
  obtain ⟨_, _, type, -⟩ := bind_eq_ok.1 read
  exact h.typeRef_ne_ok _ type

theorem startsMethod : startsMethod g s = .ok (false, s) := by
  refine foresee_eq_false fun u read => ?_
  have none : typeParams g s = .ok ([], s) := by
    simp only [typeParams, eat_bind, h.isAt]
    rfl
  rw [bind_of_ok h.modifiers, bind_of_ok none] at read
  obtain ⟨_, _, type, -⟩ := bind_eq_ok.1 read
  exact h.typeRef_ne_ok _ type

theorem begun : s.begun.AtSemicolon := ⟨h.kind, h.text⟩

theorem statementKind : statementKind g s = .ok (.empty, s.advance) := by
  rw [Syntax.statementKind, get_bind, h.isAt, if_neg (by decide), eat_bind, h.isAt,
    if_pos (by decide)]
  exact pure_eq_ok.2 ⟨rfl, rfl⟩

theorem statement : statement g s = .ok (⟨.empty, s.current.span⟩, s.begun.advance) := by
  have span := Stream.spanFrom_advance (Stream.not_atEnd_of_isAt (h.begun.isAt ";"))
  rw [Syntax.statement, begin_bind, bind_of_ok h.begun.statementKind, get_bind]
  exact congrArg (fun a => Except.ok ((⟨.empty, a⟩ : Stmt), s.begun.advance)) span

theorem blockStatement :
    blockStatement g s = .ok (⟨.empty, s.current.span⟩, s.begun.advance) := by
  rw [Syntax.blockStatement, begin_bind, bind_of_ok h.begun.startsTypeDecl,
    if_neg Bool.false_ne_true, bind_of_ok h.begun.startsLocalVar, if_neg Bool.false_ne_true]
  exact h.begun.statement

/-- A semicolon by itself is an item. -/
theorem item : item g s = .ok (.stmt ⟨.empty, s.current.span⟩, s.begun.advance) := by
  rw [Syntax.item, begin_bind, get_bind, h.begun.isAt, if_neg (by decide),
    bind_of_ok h.begun.startsTypeDecl, if_neg Bool.false_ne_true,
    bind_of_ok h.begun.startsMethod, if_neg Bool.false_ne_true,
    bind_of_ok h.begun.blockStatement]
  rfl

end Stream.AtSemicolon

end Syntax

end SketchPrep
