import SketchPrep.Proofs.Token.Gap
import SketchPrep.Proofs.Token.Layout

/-!
Reading a text lexeme by lexeme, without lines and columns. `Reads` is built up from the end of a
text, each lexeme in front of what is read already. Main statement: `tokenize_iff_reads`.
-/

namespace SketchPrep.Token

open Text

/-- What a token is, and which bytes it takes. -/
structure Outline where
  kind : Kind
  text : String
  start : Nat
  stop : Nat
  deriving DecidableEq

def outline (t : Token) : Outline := ⟨t.kind, t.text, t.start.offset, t.stop⟩

namespace Lexer

/-- Where `rest` follows it, `w` is one lexeme of the kind. -/
structure IsLexeme (w : Text) (k : Kind) (rest : Text) : Prop where
  measured : ∃ c tail, w = c :: tail ∧ lexeme c (tail ++ rest) = .ok (k, tail.length)
  no_gap : gap (w ++ rest) = 0

/-- From byte `pos` on, `cs` is read as lexemes with these outlines. -/
inductive Reads : Nat → Text → List Outline → Prop
  | stop {pos : Nat} {cs : Text} (h : cs.drop (gap cs) = []) : Reads pos cs []
  | next {pos : Nat} {blank w rest : Text} {k : Kind} {ls : List Outline} (hblank : Closed blank)
    (hw : IsLexeme w k rest) (h : Reads (pos + blank.size + w.size) rest ls) :
    Reads pos (blank ++ (w ++ rest))
      (⟨k, String.ofList w, pos + blank.size, pos + blank.size + w.size⟩ :: ls)

variable {pos : Nat} {blank w cs rest : Text} {k : Kind} {ls : List Outline}

theorem IsLexeme.ne_nil (h : IsLexeme w k rest) : w ≠ [] := by
  obtain ⟨c, tail, rfl, -⟩ := h.measured
  exact List.cons_ne_nil c tail

/-- A text begins with one lexeme only. -/
theorem IsLexeme.unique {w' rest' : Text} {k' : Kind} (h : IsLexeme w k rest)
    (h' : IsLexeme w' k' rest') (same : w ++ rest = w' ++ rest') :
    w = w' ∧ k = k' ∧ rest = rest' := by
  obtain ⟨c, tail, rfl, hlex⟩ := h.measured
  obtain ⟨c', tail', rfl, hlex'⟩ := h'.measured
  rw [List.cons_append, List.cons_append, List.cons.injEq] at same
  obtain ⟨rfl, hrest⟩ := same
  rw [hrest, hlex', Except.ok.injEq, Prod.mk.injEq] at hlex
  obtain ⟨hk, hlen⟩ := hlex
  obtain ⟨rfl, rfl⟩ := List.append_inj hrest hlen.symm
  exact ⟨rfl, hk.symm, rfl⟩

theorem reads_of_lexed {p : Position} {body : List Token} {final : Token}
    (h : Lexed p cs body final) : Reads p.offset cs (body.map outline) := by
  induction h with
  | stop hgap => exact .stop hgap
  | @next p cs blank tail rest c n kind body final hcs hblank hlex htail _ ih =>
    have drop : cs.drop (gap cs) = c :: (tail ++ rest) := by
      have := List.take_append_drop (gap cs) cs
      rw [hblank, hcs] at this
      rw [hcs]
      exact List.append_cancel_left this
    obtain ⟨closed, zero⟩ := @closed_take_gap cs (by simp [drop])
    have le := lexeme_le hlex
    have len := congrArg List.length htail
    rw [List.length_take, Nat.min_eq_left le] at len
    subst len
    have next := @Reads.next p.offset _ (c :: tail) _ kind _ (hblank ▸ closed)
      ⟨⟨c, tail, rfl, hlex⟩, by rwa [drop] at zero⟩
      (by simpa only [Position.afterAll_offset] using ih)
    rw [hcs]
    simpa only [List.map_cons, outline, Position.afterAll_offset, List.cons_append] using next

theorem tokens_of_reads {p : Position} (h : Reads pos cs ls) (hpos : pos = p.offset) :
    ∃ ts, tokens p cs = .ok ts ∧ ts.body.map outline = ls := by
  induction h generalizing p with
  | stop hgap =>
    rw [tokens]
    split
    · exact ⟨_, rfl, rfl⟩
    · rename_i hcons
      rw [hgap] at hcons
      cases hcons
  | @next pos blank w rest k ls hblank hw _ ih =>
    obtain ⟨c, tail, rfl, hlex⟩ := hw.measured
    have measured : gap (blank ++ (c :: tail ++ rest)) = blank.length := by
      rw [hblank, hw.no_gap, Nat.add_zero]
    have start : (p.afterAll blank).offset = pos + blank.size := by
      rw [Position.afterAll_offset, hpos]
    obtain ⟨ts, hts, hbody⟩ := @ih ((p.afterAll blank).afterAll (c :: tail))
      (by rw [Position.afterAll_offset, start])
    rw [tokens]
    split
    · rename_i hnil
      rw [measured, List.drop_left] at hnil
      cases hnil
    · rename_i c' rest' hcons
      rw [measured, List.drop_left, List.cons_append] at hcons
      obtain ⟨rfl, rfl⟩ := List.cons.inj hcons
      simp only [hlex, measured, List.take_left, List.drop_left, hts]
      refine ⟨_, rfl, ?_⟩
      simp only [List.map_cons, hbody, outline, Position.afterAll_offset, hpos]

theorem tokenize_iff_reads :
    Reads 0 cs ls ↔ ∃ ts, tokenize cs = .ok ts ∧ ts.body.map outline = ls := by
  constructor
  · exact fun h => tokens_of_reads h rfl
  · rintro ⟨ts, hts, rfl⟩
    exact reads_of_lexed (lexed_of_tokens hts)

/-! ### Gaps in front -/

theorem Closed.of_append {g h : Text} (hg : Closed g) (hgh : Closed (g ++ h)) : Closed h := by
  intro rest
  have := hgh rest
  rw [List.append_assoc, hg, List.length_append] at this
  omega

/-- A text is read behind a gap as it is alone, if the gap does not run into it. -/
theorem Reads.prepend {g : Text} (h : Reads (pos + g.size) cs ls)
    (hg : gap (g ++ cs) = g.length + gap cs) : Reads pos (g ++ cs) ls := by
  generalize hp : pos + g.size = p at h
  cases h with
  | stop hstop =>
    refine .stop ?_
    rw [hg, ← List.drop_drop, List.drop_left, hstop]
  | @next _ blank w rest k ls hblank hw h =>
    subst hp
    have measured : gap (g ++ blank ++ (w ++ rest)) = (g ++ blank).length := by
      rw [List.append_assoc, hg, hblank, hw.no_gap, List.length_append, Nat.add_zero]
    have closed := @closed_take_gap (g ++ blank ++ (w ++ rest))
      (by rw [measured, List.drop_left]; simp [hw.ne_nil])
    rw [measured, List.take_left] at closed
    rw [← List.append_assoc]
    have next := @Reads.next pos _ _ _ _ _ closed.1 hw
      (by simpa only [size_append, Nat.add_assoc] using h)
    simpa only [size_append, Nat.add_assoc] using next

theorem Reads.drop_gap {g : Text} (hg : Closed g) (h : Reads pos (g ++ cs) ls) :
    Reads (pos + g.size) cs ls := by
  generalize hs : g ++ cs = source at h
  cases h with
  | stop hstop =>
    subst hs
    rw [hg, ← List.drop_drop, List.drop_left] at hstop
    exact .stop hstop
  | @next _ blank w rest k ls hblank hw h =>
    have measured : g.length + gap cs = blank.length := by
      rw [← hg, hs, hblank, hw.no_gap, Nat.add_zero]
    obtain ⟨blank, rfl⟩ : ∃ b, blank = g ++ b := by
      rw [List.append_eq_append_iff] at hs
      obtain ⟨b, rfl, -⟩ | ⟨b, rfl, -⟩ := hs
      · exact ⟨b, rfl⟩
      · rw [List.length_append] at measured
        obtain rfl : b = [] := List.eq_nil_of_length_eq_zero (by omega)
        exact ⟨[], by simp⟩
    rw [List.append_assoc] at hs
    obtain rfl := List.append_cancel_left hs
    have next := @Reads.next (pos + g.size) _ _ _ _ _ (hg.of_append hblank) hw
      (by simpa only [size_append, Nat.add_assoc] using h)
    simpa only [size_append, Nat.add_assoc] using next

/-- What is read where it is known which lexeme comes first. -/
theorem Reads.uncons (h : Reads pos (blank ++ (w ++ rest)) ls) (hblank : Closed blank)
    (hw : IsLexeme w k rest) : ∃ ls',
      ls = ⟨k, String.ofList w, pos + blank.size, pos + blank.size + w.size⟩ :: ls' ∧
      Reads (pos + blank.size + w.size) rest ls' := by
  have h' := h.drop_gap hblank
  generalize hs : w ++ rest = source at h'
  generalize pos + blank.size = p at h'
  cases h' with
  | stop hstop =>
    rw [← hs, hw.no_gap, List.drop_zero, List.append_eq_nil_iff] at hstop
    exact absurd hstop.1 hw.ne_nil
  | @next _ blank' w' rest' k' ls hblank' hw' h' =>
    have measured : blank'.length = 0 := by
      rw [← hw.no_gap, hs, hblank', hw'.no_gap, Nat.add_zero]
    obtain rfl := List.eq_nil_of_length_eq_zero measured
    obtain ⟨rfl, rfl, rfl⟩ := hw.unique hw' hs
    exact ⟨ls, rfl, h'⟩

/-- Nothing is read from a gap that the text ends with. -/
theorem Reads.eq_nil (h : Reads pos cs ls) (hcs : cs.drop (gap cs) = []) : ls = [] := by
  cases h with
  | stop => rfl
  | @next _ blank w rest k ls hblank hw h =>
    rw [hblank, hw.no_gap, Nat.add_zero, List.drop_left, List.append_eq_nil_iff] at hcs
    exact absurd hcs.1 hw.ne_nil

theorem Reads.unique {ls' : List Outline} (h : Reads pos cs ls) (h' : Reads pos cs ls') :
    ls = ls' := by
  induction h generalizing ls' with
  | stop hstop => exact (h'.eq_nil hstop).symm
  | next hblank hw _ ih =>
    obtain ⟨others, rfl, behind⟩ := h'.uncons hblank hw
    rw [ih behind]

theorem Reads.exists_lexeme (h : Reads pos cs ls) :
    ∀ l ∈ ls, ∃ w rest, l.text = String.ofList w ∧ IsLexeme w l.kind rest := by
  induction h with
  | stop => simp
  | next _ hw _ ih => exact List.forall_mem_cons.2 ⟨⟨_, _, rfl, hw⟩, ih⟩

theorem exists_lexeme_of_tokenize {ts : Tokens} (h : tokenize cs = .ok ts) :
    ∀ t ∈ ts.body, ∃ rest, IsLexeme t.text.toList t.kind rest := by
  intro t ht
  have reads : Reads 0 cs (ts.body.map outline) := tokenize_iff_reads.2 ⟨ts, h, rfl⟩
  obtain ⟨w, rest, text, lexeme⟩ := reads.exists_lexeme _ (List.mem_map_of_mem ht)
  have same : t.text.toList = w := by
    rw [show t.text = String.ofList w from text, String.toList_ofList]
  exact ⟨rest, same ▸ lexeme⟩

end Lexer

end SketchPrep.Token
