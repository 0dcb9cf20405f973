import SketchPrep.Proofs.Token.Lexeme

/-!
Tokens cut a text into words and gaps. Each word is a token's text, and each gap is blanks and
comments; only the gap that the text ends with may break off inside a comment. Main statement:
`partitions_or_unrecognized`, a text is cut so from its start to its end, or up to a place where
no token can be read.
-/

namespace SketchPrep.Token

open Text

namespace Lexer

/-- Blanks and comments. The last comment may lack its end only where the text ends. -/
inductive IsGap (atEnd : Bool) : Text → Prop
  | nil : IsGap atEnd []
  | blank {c : Char} {g : Text} (h : isBlank c) (rest : IsGap atEnd g) : IsGap atEnd (c :: g)
  | line {body g : Text} (h : '\n' ∉ body) (rest : IsGap atEnd g) :
    IsGap atEnd ('/' :: '/' :: (body ++ '\n' :: g))
  | block {body g : Text} (h : ¬['*', '/'] <:+: body ++ ['*']) (rest : IsGap atEnd g) :
    IsGap atEnd ('/' :: '*' :: (body ++ '*' :: '/' :: g))
  | openLine {body : Text} (h : '\n' ∉ body) (cut : atEnd) : IsGap atEnd ('/' :: '/' :: body)
  | openBlock {body : Text} (h : ¬['*', '/'] <:+: body) (cut : atEnd) :
    IsGap atEnd ('/' :: '*' :: body)

variable {atEnd : Bool} {cs : Text}

theorem IsGap.of_feed {g : Text} (h : IsGap atEnd ('\n' :: g)) : IsGap atEnd g := by
  cases h with
  | blank _ rest => exact rest

/-- A block comment is closed at the first place where it can be, or nowhere. -/
theorem blockComment_cases (cs : Text) :
    (∃ body rest, cs = body ++ '*' :: '/' :: rest ∧ blockComment cs = body.length + 2 ∧
      ¬['*', '/'] <:+: body ++ ['*']) ∨ ¬['*', '/'] <:+: cs := by
  fun_induction blockComment cs with
  | case1 cs => exact .inl ⟨[], cs, rfl, rfl, by decide⟩
  | case2 c cs hno ih =>
    rcases ih with ⟨body, rest, rfl, size, none⟩ | none
    · refine .inl ⟨c :: body, rest, rfl, by rw [size, List.length_cons], fun h => ?_⟩
      refine none ((List.infix_cons_iff.1 h).resolve_left ?_)
      rintro ⟨t, ht⟩
      obtain rfl := (List.cons.inj ht).1
      cases body with
      | nil => simp at ht
      | cons d body =>
        obtain ⟨rfl, -⟩ := List.cons.inj (List.cons.inj ht).2
        exact hno _ rfl rfl
    · refine .inr fun h => none ((List.infix_cons_iff.1 h).resolve_left ?_)
      rintro ⟨t, ht⟩
      obtain ⟨rfl, rfl⟩ := List.cons.inj ht
      exact hno _ rfl rfl
  | case3 => exact .inr (by simp)

/-- What is taken as a gap is one. -/
theorem isGap_take_gap (h : cs.drop (gap cs) = [] → atEnd) : IsGap atEnd (cs.take (gap cs)) := by
  fun_induction gap cs with
  | case1 cs n ih =>
    have line : '\n' ∉ cs.take n := fun hmem => by
      simpa using forall_mem_of_run (p := (· ≠ '\n')) (Nat.le_refl (run (· ≠ '\n') cs)) _ hmem
    have ends := @head?_drop_run (· ≠ '\n') cs
    change ∀ c ∈ (cs.drop n).head?, decide (c ≠ '\n') = false at ends
    rw [show 2 + n + gap (cs.drop n) = n + gap (cs.drop n) + 1 + 1 by omega] at h ⊢
    rw [List.take_succ_cons, List.take_succ_cons, List.take_add]
    rw [List.drop_succ_cons, List.drop_succ_cons, ← List.drop_drop] at h
    have behind := ih h
    generalize cs.drop n = ds at *
    cases ds with
    | nil =>
      rw [List.take_nil, List.append_nil]
      exact .openLine line (h (by simp))
    | cons d ds =>
      have feed : d = '\n' := by simpa using ends d rfl
      subst feed
      rw [gap_blank (by decide), Nat.add_comm, List.take_succ_cons] at behind ⊢
      exact .line line behind.of_feed
  | case2 cs n ih =>
    rw [show 2 + n + gap (cs.drop n) = n + gap (cs.drop n) + 1 + 1 by omega] at h ⊢
    rw [List.take_succ_cons, List.take_succ_cons, List.take_add]
    rw [List.drop_succ_cons, List.drop_succ_cons, ← List.drop_drop] at h
    have behind := ih h
    rcases blockComment_cases cs with ⟨body, rest, rfl, size, none⟩ | none
    · have whole : (body ++ '*' :: '/' :: rest).take n = body ++ ['*', '/'] := by
        rw [show n = (body ++ ['*', '/']).length by simpa using size,
          show body ++ '*' :: '/' :: rest = body ++ ['*', '/'] ++ rest by simp, List.take_left]
      rw [whole, List.append_assoc]
      exact .block none behind
    · have all : n = cs.length := blockComment_eq_length none
      rw [all, List.drop_length, List.take_length, List.take_nil, List.append_nil]
      exact .openBlock none (h (by rw [all, List.drop_length, List.drop_nil]))
  | case3 c cs _ _ hblank ih =>
    rw [Nat.add_comm, List.drop_succ_cons] at h
    rw [Nat.add_comm, List.take_succ_cons]
    exact .blank hblank (ih h)
  | case4 => exact .nil
  | case5 => exact .nil

/-- The end of the text is no lexeme. -/
theorem Shape.ne_endOfInput {c : Char} {k : Kind} {n : Nat} (h : Shape c cs k n) :
    k ≠ .endOfInput := by
  cases h with
  | word => rcases wordKind_cases (c :: cs.take (run continuesName cs)) with h | h <;> simp [h]
  | number => rcases number_kind (c :: cs) with h | h <;> simp [h]
  | _ => simp

/-- A gap begins where the token before it ends, or where reading began. -/
theorem Lexed.gaps {p : Position} {before cs : Text} {body : List Token} {final : Token}
    (h : Lexed p cs body final) (hp : p.offset = before.size) :
    ∀ q ∈ (before.size :: body.map Token.stop).zip (body ++ [final]), ∃ g,
      (before ++ cs).slice? q.1 q.2.start.offset = some g ∧ IsGap q.2.isEnd g ∧
        (q.2.afterBreak ↔ '\n' ∈ g) := by
  induction h generalizing before with
  | @stop p cs hgap =>
    intro q hq
    obtain rfl := List.mem_singleton.1 hq
    have isGap := @isGap_take_gap true cs fun _ => rfl
    rw [List.take_of_length_le (List.drop_eq_nil_iff.1 hgap)] at isGap
    have slice := slice?_append before cs []
    rw [List.append_nil, ← hp, ← Position.afterAll_offset] at slice
    exact ⟨cs, hp ▸ slice, isGap, List.contains_iff_mem⟩
  | @next p cs blank tail rest c n kind body final hcs hblank hlex htail _ ih =>
    have drop : cs.drop (gap cs) = c :: (tail ++ rest) := by
      have := List.take_append_drop (gap cs) cs
      rw [hblank] at this
      exact List.append_cancel_left (this.trans hcs)
    have isGap := @isGap_take_gap false cs (by simp [drop])
    rw [hblank] at isGap
    subst hcs
    have start : (p.afterAll blank).offset = before.size + blank.size := by
      rw [Position.afterAll_offset, hp]
    have stop : ((p.afterAll blank).afterAll (c :: tail)).offset =
        (before ++ blank ++ c :: tail).size := by
      rw [Position.afterAll_offset, start, size_append (before ++ blank), size_append]
    have later := ih stop
    rw [List.map_cons, List.cons_append, List.zip_cons_cons, List.forall_mem_cons]
    constructor
    · have slice := slice?_append before blank (c :: (tail ++ rest))
      rw [List.append_assoc] at slice
      have inside : decide (kind = .endOfInput) = false :=
        decide_eq_false (shape_of_lexeme hlex).ne_endOfInput
      exact ⟨blank, by rw [start]; exact slice, by rwa [Token.isEnd, inside],
        List.contains_iff_mem⟩
    · rw [stop]
      simpa only [List.append_assoc, List.cons_append] using later

theorem Lexed.text_final {p : Position} {cs : Text} {body : List Token} {final : Token}
    (h : Lexed p cs body final) : final.text = "" := by
  induction h with
  | stop => rfl
  | next _ _ _ _ _ ih => exact ih

theorem Lexed.isEnd {p : Position} {cs : Text} {body : List Token} {final : Token}
    (h : Lexed p cs body final) : ∀ t ∈ body, t.isEnd = false := by
  induction h with
  | stop => simp
  | next _ _ hlex _ _ ih =>
    exact List.forall_mem_cons.2 ⟨decide_eq_false (shape_of_lexeme hlex).ne_endOfInput, ih⟩

/-- Where no token can be read, the characters that were tried stand in the text. -/
theorem exists_of_unrecognized {p : Position} {cs : Text} {u : Unrecognized}
    (h : tokens p cs = .error u) : ∃ front word behind, cs = front ++ (word ++ behind) ∧
      u.text = String.ofList word ∧ u.start = p.afterAll front := by
  fun_induction tokens p cs with
  | case1 => cases h
  | case2 p cs blank start c rest hdrop n =>
    obtain rfl := Except.error.inj h
    refine ⟨blank, c :: rest.take n, rest.drop n, ?_, rfl, rfl⟩
    rw [List.cons_append, List.take_append_drop, ← hdrop, List.take_append_drop]
  | case3 p cs blank start c rest hdrop kind n hlex word next e he ih =>
    obtain rfl := Except.error.inj h
    obtain ⟨front, tried, behind, hrest, text, place⟩ := ih he
    refine ⟨blank ++ (word ++ front), tried, behind, ?_, text, ?_⟩
    · rw [List.append_assoc, List.append_assoc, ← hrest, List.cons_append,
        List.take_append_drop, ← hdrop, List.take_append_drop]
    · rw [place, Position.afterAll_append, Position.afterAll_append]
  | case4 => cases h

end Lexer

end SketchPrep.Token

namespace SketchPrep.Tokens

open Text Token Token.Lexer

/-- The tokens with the end of input behind them. -/
def all (ts : Tokens) : List Token := ts.body ++ [ts.final]

/-- Each token with the end of the one before it, where its gap begins. -/
def gapped (ts : Tokens) : List (Nat × Token) := (0 :: ts.body.map Token.stop).zip ts.all

/-- The tokens cut the source into words and gaps, with nothing left over. -/
structure Partitions (source : Text) (ts : Tokens) : Prop where
  text : ∀ t ∈ ts.all, source.slice? t.start.offset t.stop = some t.text.toList
  nonempty : ∀ t ∈ ts.body, t.start.offset < t.stop ∧ t.isEnd = false
  final : ts.final.span = ⟨source.size, source.size⟩
  ordered : ts.all.Pairwise fun a b => a.stop ≤ b.start.offset ∧ a.start.offset < b.start.offset
  gaps : ∀ p ∈ ts.gapped, ∃ g, source.slice? p.1 p.2.start.offset = some g ∧
    IsGap p.2.isEnd g ∧ (p.2.afterBreak ↔ '\n' ∈ g)

theorem partitions_of_tokenize {source : Text} {ts : Tokens} (h : tokenize source = .ok ts) :
    Partitions source ts := by
  have lexed := lexed_of_tokens h
  have laid := laidOut_of_tokenize h
  have final := span_final_of_tokenize h
  obtain ⟨lo, hi⟩ := Span.mk.inj final
  constructor
  case text =>
    rw [all, List.forall_mem_append, List.forall_mem_singleton]
    constructor
    · intro t ht
      obtain ⟨before, word, behind, rfl, -, text, start, stop⟩ := laid.lies t ht
      rw [start, stop, text, String.toList_ofList]
      exact slice?_append before word behind
    · have slice := slice?_append source [] []
      rw [List.append_nil, List.append_nil] at slice
      rw [lo, hi, lexed.text_final]
      exact slice
  case nonempty => exact fun t ht => ⟨(laid.lies t ht).lt, lexed.isEnd t ht⟩
  case final => exact final
  case ordered =>
    refine List.pairwise_append.2 ⟨?_, by simp, fun t ht u hu => ?_⟩
    · refine laid.ordered.imp_of_mem fun {a b} ha _ le => ⟨le, ?_⟩
      exact Nat.lt_of_lt_of_le (laid.lies a ha).lt le
    · obtain rfl := List.mem_singleton.1 hu
      have lies := laid.lies t ht
      have le := lies.isBoundary_stop.le_size
      exact ⟨lo ▸ le, lo ▸ Nat.lt_of_lt_of_le lies.lt le⟩
  case gaps => exact @Lexed.gaps _ [] _ _ _ lexed rfl

/-- Every text is cut into words and gaps up to its end, or up to a place where no token can be
read, and what was tried there is a part of the text. -/
theorem partitions_or_unrecognized (source : Text) :
    (∃ ts, tokenize source = .ok ts ∧ Partitions source ts) ∨
      ∃ u stop, tokenize source = .error u ∧
        source.slice? u.start.offset stop = some u.text.toList := by
  cases h : tokenize source with
  | ok ts => exact .inl ⟨ts, rfl, partitions_of_tokenize h⟩
  | error u =>
    obtain ⟨front, word, behind, rfl, text, start⟩ := exists_of_unrecognized h
    refine .inr ⟨u, front.size + word.size, rfl, ?_⟩
    rw [start, Position.afterAll_offset, Position.start, Nat.zero_add, text, String.toList_ofList,
      ← List.append_assoc]
    exact slice?_append front word behind

end SketchPrep.Tokens
