import SketchPrep.Proofs.Syntax.Agreement
import SketchPrep.Proofs.Token.Partition
import SketchPrep.Sketch.Tabs

/-!
Lines and columns. The lexer keeps them up from character to character, the tabs count them from
their text. Main statement: `positions_agree`, both give the same for each token and each error.
-/

namespace SketchPrep

open Text Token Token.Lexer

/-- The position is between two characters of the source, on the line and in the column that the
source gives for its offset, alone or as the front of joined tabs. -/
structure Position.StandsIn (source : Text) (p : Position) : Prop where
  isBoundary : IsBoundary source p.offset
  le_size : p.offset ≤ source.size
  lineColumn : ∀ before behind, source = before ++ behind → before.size = p.offset →
    before.lineColumn = (p.line, p.column)
  inTabs : ∀ tabs, source <+: Tab.join tabs →
    Tab.lineColumn? tabs p.offset = some (p.line, p.column)

variable {source : Text}

theorem Tab.lineColumn?_eq {tabs : List Tab} {before behind : Text}
    (h : Tab.join tabs = before ++ behind) :
    Tab.lineColumn? tabs before.size = some before.lineColumn := by
  have fits : before.size ≤ (Tab.join tabs).size := by
    rw [h, size_append]
    exact Nat.le_add_right _ _
  have cut : (Tab.join tabs).split? before.size = some (before, behind) :=
    split?_eq_some.2 ⟨h, rfl⟩
  rw [Tab.lineColumn?, Nat.min_eq_left fits, cut, Option.map_some]

theorem Position.standsIn_afterAll (before behind : Text) :
    (Position.start.afterAll before).StandsIn (before ++ behind) := by
  rw [Position.afterAll_start]
  constructor
  case isBoundary => exact isBoundary_size_left before behind
  case le_size =>
    rw [size_append]
    exact Nat.le_add_right _ _
  case lineColumn =>
    intro front rest cut size
    rw [(append_inj_of_size cut size.symm).1]
  case inTabs =>
    rintro tabs ⟨rest, whole⟩
    rw [List.append_assoc] at whole
    exact Tab.lineColumn?_eq whole.symm

namespace Token

theorem Lexer.Lexed.exists_start {p : Position} {cs : Text} {body : List Token} {final : Token}
    (h : Lexed p cs body final) : ∀ t ∈ body ++ [final],
      ∃ before behind, cs = before ++ behind ∧ t.start = p.afterAll before := by
  induction h with
  | @stop p cs =>
    rw [List.nil_append, List.forall_mem_singleton]
    exact ⟨cs, [], (List.append_nil cs).symm, rfl⟩
  | @next p cs blank tail rest c n kind body final hcs hblank hlex htail next ih =>
    rw [List.cons_append, List.forall_mem_cons]
    refine ⟨⟨blank, _, hcs, rfl⟩, fun t ht => ?_⟩
    obtain ⟨before, behind, hrest, start⟩ := ih t ht
    refine ⟨blank ++ (c :: tail ++ before), behind, ?_, ?_⟩
    · rw [hcs, hrest, List.cons_append, List.append_assoc, List.cons_append, List.append_assoc]
    · rw [start, Position.afterAll_append, Position.afterAll_append]

theorem standsIn_of_tokenize {ts : Tokens} (h : tokenize source = .ok ts) :
    ∀ t ∈ ts.all, t.start.StandsIn source := by
  intro t ht
  obtain ⟨before, behind, rfl, start⟩ := (lexed_of_tokens h).exists_start t ht
  exact start ▸ Position.standsIn_afterAll before behind

theorem Lexer.standsIn_of_unrecognized {u : Unrecognized} (h : tokenize source = .error u) :
    u.start.StandsIn source := by
  obtain ⟨front, word, behind, rfl, -, start⟩ := exists_of_unrecognized h
  exact start ▸ Position.standsIn_afterAll front (word ++ behind)

end Token

namespace Syntax

/-- The token at which an error would be reported, and each that may come to be it. -/
structure Stream.IsPlaced (source : Text) (s : Stream) : Prop where
  ahead : ∀ t ∈ s.ahead, t.start.StandsIn source
  final : s.final.start.StandsIn source

theorem Stream.IsPlaced.current {s : Stream} (h : s.IsPlaced source) :
    s.current.start.StandsIn source := by
  unfold Stream.current Stream.nth
  cases hs : s.ahead with
  | nil => exact h.final
  | cons t ts => exact h.ahead t (by rw [hs]; exact List.mem_cons_self)

theorem invariant_isPlaced (source : Text) :
    Reader.Invariant (Stream.IsPlaced source) (fun e => e.start.StandsIn source) where
  advance s h := by
    refine ⟨fun t ht => ?_, ?_⟩
    · rw [Stream.advance_ahead] at ht
      exact h.ahead t (List.mem_of_mem_tail ht)
    · unfold Stream.advance
      split <;> exact h.final
  begin _ h := ⟨h.ahead, h.final⟩
  unexpected _ _ h := h.current
  noViable _ h := h.current

end Syntax

theorem Sketch.standsIn_of_parse {e : SyntaxError} (h : Sketch.parse source = .error e) :
    e.start.StandsIn source := by
  refine error_of_parse (Syntax.invariant_isPlaced source) ?_ ?_ h
  · exact fun u => standsIn_of_unrecognized
  · intro ts hts
    have stands := standsIn_of_tokenize hts
    exact ⟨fun t ht => stands t (List.mem_append_left _ ht),
      stands _ (List.mem_append_right _ List.mem_cons_self)⟩

/-- Each token and each error stands on the line and in the column that the text gives for its
offset. -/
theorem positions_agree (source : Text) :
    (∀ ts, tokenize source = .ok ts → ∀ t ∈ ts.all, t.start.StandsIn source) ∧
      (∀ u, tokenize source = .error u → u.start.StandsIn source) ∧
      ∀ e, Sketch.parse source = .error e → e.start.StandsIn source :=
  ⟨fun _ => standsIn_of_tokenize, fun _ => standsIn_of_unrecognized,
    fun _ => Sketch.standsIn_of_parse⟩

/-- A token, a text that has none and a syntax error, each behind lines that a comment and a text
block break and behind a character of two bytes. -/
theorem positions_agree_behind_text_block :
    let front : Text := "/*é\n*/ s = \"\"\"\né\"\"\" ".toList
    let place : Position := ⟨22, 3, 5⟩
    (∃ ts t, tokenize (front ++ [';']) = .ok ts ∧ t ∈ ts.all ∧ t.start = place ∧
        place.StandsIn (front ++ [';'])) ∧
      (∃ u, tokenize (front ++ ['#']) = .error u ∧ u.start = place ∧
        place.StandsIn (front ++ ['#'])) ∧
      ∃ e, Sketch.parse (front ++ [')']) = .error e ∧ e.start = place ∧
        place.StandsIn (front ++ [')']) := by
  intro front place
  refine ⟨?_, ?_, ?_⟩
  · have read : (tokenize (front ++ [';'])).toOption.any
        (fun ts : Tokens => ts.all.any fun t => decide (t.start = place)) := by decide +kernel
    cases h : tokenize (front ++ [';']) with
    | error u => rw [h] at read; cases read
    | ok ts =>
      rw [h] at read
      obtain ⟨t, ht, start⟩ := List.any_eq_true.1 read
      have start := of_decide_eq_true start
      exact ⟨ts, t, rfl, ht, start, start ▸ (positions_agree (front ++ [';'])).1 ts h t ht⟩
  · have read : (tryCatch ((fun _ => none) <$> tokenize (front ++ ['#'])) fun u =>
        .ok (some u.start)).toOption = some (some place) := by decide +kernel
    cases h : tokenize (front ++ ['#']) with
    | ok ts => rw [h] at read; cases read
    | error u =>
      rw [h] at read
      have start := Option.some.inj (Option.some.inj read)
      exact ⟨u, rfl, start, start ▸ (positions_agree (front ++ ['#'])).2.1 u h⟩
  · have read : (tryCatch ((fun _ => none) <$> Sketch.parse (front ++ [')'])) fun e =>
        .ok (some e.start)).toOption = some (some place) := by decide +kernel
    cases h : Sketch.parse (front ++ [')']) with
    | ok s => rw [h] at read; cases read
    | error e =>
      rw [h] at read
      have start := Option.some.inj (Option.some.inj read)
      exact ⟨e, rfl, start, start ▸ (positions_agree (front ++ [')'])).2.2 e h⟩

end SketchPrep
