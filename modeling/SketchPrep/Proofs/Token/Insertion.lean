import SketchPrep.Proofs.Token.Append
import SketchPrep.Proofs.Token.Partition

/-!
A text cut behind a semicolon or a closing brace: no lexeme before the cut looks beyond it. Main
statement: `tokenize_insert`, a semicolon that is put into the gap behind such a sign is a token by
itself, and the tokens behind it are the same as before.
-/

namespace SketchPrep.Token

open Text

/-- A semicolon or a closing brace. -/
def Outline.closes (l : Outline) : Bool :=
  l.kind = .punctuation && (l.text = ";" || l.text = "\x7d")

/-- The same lexeme, `d` bytes further behind. -/
def Outline.behind (d : Nat) (l : Outline) : Outline :=
  { l with start := l.start + d, stop := l.stop + d }

namespace Lexer

variable {c : Char} {cs w x y rest : Text} {k : Kind} {n pos : Nat}

/-! ### Lexemes in front of a stop -/

/-- What ends before a stop does not depend on what the stop begins. -/
theorem Shape.of_append (h : Shape c (cs ++ x) k n) (hx : StartsStop x) (le : n ≤ cs.length) :
    Shape c cs k n := by
  have through {m : Nat} (m_le : m ≤ cs.length) : (cs ++ x).take m ++ cs.drop m = cs := by
    rw [List.take_append_of_le_length m_le, List.take_append_drop]
  cases h with
  | word hc =>
    rw [hx.run_append continuesName_of_isStop, List.take_append_of_le_length (run_le ..)]
    exact .word hc
  | number hc =>
    rw [← List.cons_append, hx.number_append (List.cons_ne_nil c cs)]
    refine .number (hc.imp_right fun ⟨point, digit⟩ => ⟨point, ?_⟩)
    cases cs with
    | nil =>
      obtain ⟨d, hd, digit⟩ := (Option.any_eq_true _ _).1 digit
      rw [(hx.not_digit d hd).1] at digit
      cases digit
    | cons => exact digit
  | color hc hn =>
    rw [hx.run_append isHexDigit_of_isStop] at hn
    exact .color hc hn
  | @block m hc hq h =>
    obtain ⟨a, b, ds, rfl⟩ : ∃ a b ds, cs = a :: b :: ds := by
      match cs with
      | [] | [_] =>
        simp only [List.length_cons, List.length_nil] at le
        omega
      | a :: b :: ds => exact ⟨a, b, ds, rfl⟩
    have inside : m ≤ ds.length := by
      simp only [List.length_cons] at le
      omega
    have alone := textBlock_take h (ds.drop m)
    rw [List.cons_append, List.cons_append, List.drop_succ_cons, List.drop_succ_cons,
      List.drop_zero, List.take_append_of_le_length inside, List.take_append_drop] at alone
    exact .block hc hq alone
  | string hc hq h =>
    have alone := quoted_take (by decide) h (cs.drop n)
    rw [through le] at alone
    refine .string hc (fun quotes => hq ?_) alone
    have two : 2 ≤ cs.length := by
      have := congrArg List.length quotes
      simp only [List.length_take, List.length_cons, List.length_nil] at this
      omega
    rw [List.take_append_of_le_length two, quotes]
  | char hc h =>
    have alone := quoted_take (by decide) h (cs.drop n)
    rw [through le] at alone
    exact .char hc alone
  | @sign w hw pre hmax hdot =>
    have inside : w.length ≤ (c :: cs).length := by
      rw [List.length_cons]
      omega
    refine .sign hw (List.prefix_of_prefix_length_le pre (List.prefix_append (c :: cs) x) inside)
      (fun s hs pre' => hmax s hs (pre'.trans (List.prefix_append (c :: cs) x))) fun point => ?_
    cases cs with
    | nil => rfl
    | cons => exact hdot point

theorem IsLexeme.of_append (h : IsLexeme w k (rest ++ x)) (hx : StartsStop x) :
    IsLexeme w k rest := by
  have no_gap := h.no_gap
  obtain ⟨c, tail, rfl, shape⟩ := h.shape
  rw [← List.append_assoc] at shape no_gap
  have alone := shape.of_append hx (by rw [List.length_append]; omega)
  refine ⟨⟨c, tail, rfl, lexeme_of_shape alone⟩, ?_⟩
  obtain ⟨blank, slash⟩ := @not_of_gap_eq_zero c (tail ++ rest ++ x) no_gap
  refine @gap_eq_zero c (tail ++ rest) blank fun hc d hd => slash hc d ?_
  obtain ⟨cs, behind⟩ := List.head?_eq_some_iff.1 hd
  rw [behind]
  rfl

/-- A lexeme is the same in front of any text that begins like its own through a stop. -/
theorem IsLexeme.exchange (h : IsLexeme w k (rest ++ x)) (hx : StartsStop x) (hy : StartsStop y) :
    IsLexeme w k (rest ++ y) :=
  (h.of_append hx).append hy

theorem startsStop_cons (hc : isStop c) (cs : Text) : StartsStop (c :: cs) := fun _ hd =>
  Option.some.inj hd ▸ hc

theorem isStop_of_close (hc : c = ';' ∨ c = '\x7d') : isStop c := by
  rcases hc with rfl | rfl <;> rfl

/-- No sign goes on behind a semicolon or a closing brace. -/
theorem isLexeme_close (hc : c = ';' ∨ c = '\x7d') (rest : Text) :
    IsLexeme [c] .punctuation rest := by
  have listed : c ∈ signs ∧ c ≠ '.' ∧ c ≠ '/' := by
    rcases hc with rfl | rfl <;> decide
  refine isLexeme_sign (.inr ⟨c, listed.1, rfl⟩) (noLonger_singleton fun d _ s hs pre => ?_)
    (fun point => absurd (List.cons.inj point).1 listed.2.1)
    fun slash => absurd (List.cons.inj slash).1 listed.2.2
  have stop := not_isStop_of_longSigns s hs c (pre.subset (.head _))
  rw [isStop_of_close hc] at stop
  cases stop

/-! ### Cutting a text -/

variable {l : Outline} {ls ms : List Outline}

theorem Reads.shift (h : Reads pos cs ls) (d : Nat) :
    Reads (pos + d) cs (ls.map (Outline.behind d)) := by
  induction h with
  | stop hstop => exact .stop hstop
  | @next pos blank w rest k ls hblank hw _ ih =>
    have place (m : Nat) : pos + d + m = pos + m + d := Nat.add_right_comm ..
    have next := @Reads.next (pos + d) blank w rest k (ls.map (Outline.behind d)) hblank hw (by
      rwa [place, Nat.add_right_comm])
    rw [place, Nat.add_right_comm _ d] at next
    exact next

/-- Behind a lexeme that closes, the text may go on as it likes. -/
theorem Reads.split (h : Reads pos cs (ls ++ l :: ms)) (hl : l.closes) :
    ∃ (a : Text) (s : Char) (z : Text), cs = a ++ s :: z ∧ isStop s ∧
      l.stop = pos + size (a ++ [s]) ∧ Reads l.stop z ms ∧
        ∀ z' ms', Reads l.stop z' ms' → Reads pos (a ++ s :: z') (ls ++ l :: ms') := by
  induction ls generalizing pos cs with
  | nil =>
    rw [List.nil_append] at h
    cases h with
    | @next _ blank w rest k _ hblank hw h =>
      obtain ⟨c, hc, rfl⟩ : ∃ c, (c = ';' ∨ c = '\x7d') ∧ w = [c] := by
        simp only [Outline.closes, Bool.and_eq_true, Bool.or_eq_true, decide_eq_true_eq] at hl
        have spelled {v : String} (hv : String.ofList w = v) : w = v.toList := by
          rw [← hv, String.toList_ofList]
        rcases hl.2 with hv | hv
        · exact ⟨';', .inl rfl, spelled hv⟩
        · exact ⟨'\x7d', .inr rfl, spelled hv⟩
      obtain rfl : k = .punctuation := by
        simp only [Outline.closes, Bool.and_eq_true, decide_eq_true_eq] at hl
        exact hl.1
      refine ⟨blank, c, rest, rfl, isStop_of_close hc, by simp [Nat.add_assoc], h,
        fun z' ms' reads => ?_⟩
      exact .next hblank (isLexeme_close hc z') reads
  | cons m ls ih =>
    rw [List.cons_append] at h
    cases h with
    | @next _ blank w rest k _ hblank hw h =>
      obtain ⟨a, s, z, rfl, stop, place, reads, behind⟩ := ih h
      refine ⟨blank ++ (w ++ a), s, z, by simp, stop, ?_, reads, fun z' ms' reads => ?_⟩
      · simp only [place, size_append]
        omega
      · have next := Reads.next hblank
          (hw.exchange (startsStop_cons stop z) (startsStop_cons stop z')) (behind z' ms' reads)
        simpa only [List.append_assoc, List.cons_append] using next

/-- A semicolon in the gap behind a lexeme that closes. -/
theorem Reads.insert {a g b : Text} (h : Reads 0 (a ++ (g ++ b)) (ls ++ l :: ms)) (hl : l.closes)
    (stop : l.stop = a.size) (hg : Closed g) :
    Reads 0 (a ++ (g ++ ';' :: b)) (ls ++ l ::
      ⟨.punctuation, ";", a.size + g.size, a.size + g.size + 1⟩ ::
        ms.map (Outline.behind 1)) := by
  obtain ⟨a', s, z, cut, -, place, reads, behind⟩ := h.split hl
  rw [show a' ++ s :: z = a' ++ [s] ++ z by simp] at cut
  obtain ⟨rfl, rfl⟩ := append_inj_of_size cut (by omega)
  rw [List.append_assoc]
  refine behind _ _ ?_
  have others := (reads.drop_gap hg).shift 1
  have semicolon := Reads.next hg (isLexeme_close (.inl rfl) b) (stop ▸ others)
  rwa [stop]

theorem IsGap.closed {g : Text} (h : IsGap false g) : Closed g := by
  induction h with
  | nil => exact closed_nil
  | blank hc _ ih => exact (closed_blank hc).append ih
  | @line body g none _ ih =>
    intro rest
    have line : run (· ≠ '\n') (body ++ '\n' :: (g ++ rest)) = body.length :=
      run_append (fun c hc => decide_eq_true (ne_of_mem_of_not_mem hc none)) (by simp)
    have feed : isBlank '\n' := by decide
    rw [List.cons_append, List.cons_append, List.append_assoc, List.cons_append, gap_line, line,
      List.drop_left, gap_blank feed, ih]
    simp only [List.length_cons, List.length_append]
    omega
  | @block body g none _ ih =>
    have opened : ¬['*', '/'] <:+: body := fun inside =>
      none (inside.trans (List.prefix_append ..).isInfix)
    have comment : Closed ('/' :: '*' :: (body ++ ['*', '/'])) := closed_comment fun rest => by
      rw [List.append_assoc, blockComment_of_open opened (by simp), List.length_append]
      rfl
    have whole := comment.append ih
    simpa only [List.cons_append, List.append_assoc, List.nil_append] using whole
  | openLine _ cut => cases cut
  | openBlock _ cut => cases cut

end Lexer

/-- A semicolon in the gap behind a token that closes is a token by itself. The tokens before it
stay where they are, and those behind it are one byte further behind. -/
theorem tokenize_insert {a g b : Text} {ts : Tokens} {us vs : List Token} {t : Token}
    (h : tokenize (a ++ (g ++ b)) = .ok ts) (body : ts.body = us ++ t :: vs)
    (ht : t.outline.closes) (stop : t.stop = a.size) (hg : Lexer.Closed g) :
    ∃ ts', tokenize (a ++ (g ++ ';' :: b)) = .ok ts' ∧ ts'.body.map outline =
      us.map outline ++ t.outline ::
        ⟨.punctuation, ";", a.size + g.size, a.size + g.size + 1⟩ ::
          vs.map fun v => v.outline.behind 1 := by
  have reads : Lexer.Reads 0 (a ++ (g ++ b)) (us.map outline ++ t.outline :: vs.map outline) := by
    rw [← List.map_cons, ← List.map_append, ← body]
    exact Lexer.tokenize_iff_reads.2 ⟨ts, h, rfl⟩
  obtain ⟨ts', hts', outlines⟩ := Lexer.tokenize_iff_reads.1 (reads.insert ht stop hg)
  refine ⟨ts', hts', ?_⟩
  rw [outlines, List.map_map]
  rfl

/-- No name begins so: what is spelled like a sign is one. -/
theorem kind_of_is {source : Text} {ts : Tokens} (h : tokenize source = .ok ts) {t : Token}
    (ht : t ∈ ts.body) {w : String} (hw : t.is w)
    (sign : w.toList.head?.all (fun c => !Lexer.startsName c)) : t.kind = .punctuation := by
  obtain ⟨rest, lexeme⟩ := Lexer.exists_lexeme_of_tokenize h t ht
  simp only [is, Bool.and_eq_true, Bool.or_eq_true, decide_eq_true_eq] at hw
  obtain ⟨(word | word) | isSign, rfl⟩ := hw
  case inr => exact isSign
  all_goals
    obtain ⟨c, tail, spelled, starts, -⟩ := lexeme.exists_word (by simp [word])
    rw [spelled] at sign
    simp [starts] at sign

end SketchPrep.Token
