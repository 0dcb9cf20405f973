import SketchPrep.Proofs.Diagnosis.Expectation
import SketchPrep.Proofs.Diagnosis.Location
import SketchPrep.Proofs.Syntax.Quotation

/-!
The code that a hint shows. A message quotes the input from the start of a declaration or statement
on, and hints are about the last line of it. Main statement: `quotedCode_of_parse`, that line is cut
once more behind a backslash with an `n`, and it is shown whole just if it has none.
-/

namespace SketchPrep

open Text

namespace Rule

variable {a b cs : Text}

/-- What a message that quotes the input begins with. -/
def quoteMark : Text := "no viable alternative at input '".toList

/-- A line feed as messages show it, and as string literals have it. -/
def feedMark : Text := ['\\', 'n']

/-- What stands behind the last mark of a line feed, or the whole text. -/
def behindFeedMark (cs : Text) : Text :=
  match splitLastPart? feedMark cs with
  | some (_, rest) => rest
  | none => cs

theorem behindFeedMark_eq_self (h : ¬feedMark <:+: cs) : behindFeedMark cs = cs := by
  rw [behindFeedMark, splitLastPart?_eq_none h]

theorem behindFeedMark_last (h : ¬feedMark <:+: b) : behindFeedMark (a ++ feedMark ++ b) = b := by
  have behind : ¬feedMark <:+: feedMark.tail ++ b := by
    intro inside
    have later : feedMark <:+: b := infix_of_infix_append (a := ['n']) rfl (by decide) inside
    exact h later
  rw [behindFeedMark, splitLastPart?_append (by decide) behind]

/-- A text has no mark, or it can be cut at its last one. -/
theorem exists_last_feedMark (cs : Text) :
    ¬feedMark <:+: cs ∨ ∃ a b, cs = a ++ feedMark ++ b ∧ ¬feedMark <:+: b := by
  induction cs with
  | nil => exact .inl (by decide)
  | cons c cs ih =>
    rcases ih with none | ⟨a, b, whole, none⟩
    · by_cases first : feedMark <+: c :: cs
      · obtain ⟨rest, same⟩ := first
        have behind : rest <:+ cs := ⟨['n'], (List.cons.inj same).2⟩
        have later : ¬feedMark <:+: rest := fun inside => none (inside.trans behind.isInfix)
        exact .inr ⟨[], rest, same.symm, later⟩
      · refine .inl fun inside => ?_
        exact (List.infix_cons_iff.1 inside).elim first none
    · exact .inr ⟨c :: a, b, by rw [whole]; rfl, none⟩

theorem behindFeedMark_append (a b : Text) :
    behindFeedMark (a ++ feedMark ++ b) = behindFeedMark b := by
  rcases exists_last_feedMark b with none | ⟨x, y, whole, none⟩
  · rw [behindFeedMark_last none, behindFeedMark_eq_self none]
  · have cut : a ++ feedMark ++ b = a ++ feedMark ++ x ++ feedMark ++ y := by
      rw [whole]
      simp only [List.append_assoc]
    rw [cut, whole, behindFeedMark_last none, behindFeedMark_last none]

theorem not_infix_behindFeedMark (cs : Text) : ¬feedMark <:+: behindFeedMark cs := by
  rcases exists_last_feedMark cs with none | ⟨x, y, rfl, none⟩
  · rwa [behindFeedMark_eq_self none]
  · rwa [behindFeedMark_last none]

theorem behindFeedMark_eq_self_iff : behindFeedMark cs = cs ↔ ¬feedMark <:+: cs := by
  refine ⟨fun same => ?_, behindFeedMark_eq_self⟩
  rw [← same]
  exact not_infix_behindFeedMark cs

/-- A character that no mark has does not change where the last one stands. -/
theorem behindFeedMark_concat {d : Char} (hd : d ∉ feedMark) (cs : Text) :
    behindFeedMark (cs ++ [d]) = behindFeedMark cs ++ [d] := by
  have beyond {b : Text} (none : ¬feedMark <:+: b) : ¬feedMark <:+: b ++ [d] := by
    intro inside
    have turned : feedMark.reverse <:+: [d] ++ b.reverse := by
      rw [← List.reverse_infix] at inside
      simpa using inside
    have other : 'n' ∉ [d] := by
      intro same
      rw [← List.mem_singleton.1 same] at hd
      exact hd (by decide)
    have found : feedMark.reverse <:+: b.reverse := infix_of_infix_append rfl other turned
    exact none (List.reverse_infix.1 found)
  rcases exists_last_feedMark cs with none | ⟨x, y, rfl, none⟩
  · rw [behindFeedMark_eq_self none, behindFeedMark_eq_self (beyond none)]
  · rw [behindFeedMark_last none, List.append_assoc, behindFeedMark_last (beyond none)]

/-! ### Lines -/

/-- The text with its line feeds shown as marks. -/
def showFeeds (cs : Text) : Text := cs.flatMap fun c => if c = '\n' then ['\\', 'n'] else [c]

theorem showFeeds_append (a b : Text) : showFeeds (a ++ b) = showFeeds a ++ showFeeds b :=
  List.flatMap_append

theorem showFeeds_eq_self (h : '\n' ∉ cs) : showFeeds cs = cs := by
  induction cs with
  | nil => rfl
  | cons c cs ih =>
    rw [List.mem_cons, not_or] at h
    have rest := ih h.2
    rw [showFeeds] at rest ⊢
    rw [List.flatMap_cons, if_neg (Ne.symm h.1), rest]
    rfl

/-- Behind the last mark, be it for a line feed or not, only characters of the last line stand. -/
theorem behindFeedMark_showFeeds (cs : Text) :
    behindFeedMark (showFeeds cs) = behindFeedMark (lastLine cs) := by
  obtain ⟨front, whole, feed⟩ := cs.exists_front
  have line : showFeeds (lastLine cs) = lastLine cs := showFeeds_eq_self (not_mem_lastLine cs)
  have shown : showFeeds cs = showFeeds front ++ lastLine cs := by
    rw [← line, ← showFeeds_append, ← whole]
  rcases List.eq_nil_or_concat front with rfl | ⟨f, d, rfl⟩
  · rw [shown]
    rfl
  · have last : d = '\n' := feed d (by simp)
    have mark : showFeeds ['\n'] = feedMark := rfl
    rw [shown, List.concat_eq_append, showFeeds_append, last, mark, behindFeedMark_append]

/-- Of the code that a message quotes the part behind the last mark on the last line is shown. -/
theorem quotedCode_message {code : Text} (h : ¬quoteMark <:+: code ++ ['\'']) :
    quotedCode (quoteMark ++ code ++ ['\'']) = behindFeedMark (lastLine code) := by
  have mark : noViable <:+: quoteMark := ⟨"no ".toList, " at input '".toList, by decide⟩
  have viable : hasPart noViable (quoteMark ++ code ++ ['\'']) := by
    rw [List.append_assoc]
    exact hasPart_iff.2 (mark.trans (List.prefix_append ..).isInfix)
  have content : removeAll quoteMark (quoteMark ++ code ++ ['\'']) = code ++ ['\''] := by
    rw [List.append_assoc, removeAll_append (by decide), removeAll_eq_self h]
  have shown : behindFeedMark (showFeeds (code ++ ['\''])) =
      behindFeedMark (lastLine code) ++ ['\''] := by
    rw [behindFeedMark_showFeeds, lastLine_concat (by decide), behindFeedMark_concat (by decide)]
  rw [quotedCode, if_pos viable]
  change (if (behindFeedMark (showFeeds (removeAll quoteMark _))).getLast? = some '\'' then
    (behindFeedMark (showFeeds (removeAll quoteMark _))).dropLast else _) = _
  rw [content, shown, List.getLast?_concat, if_pos rfl, List.dropLast_concat]

end Rule

variable {source : Text} {e : SyntaxError} {read : Span}

/-- The code that a hint is about, where nothing that can stand at a place starts like the input:
what stands behind the last mark of a line feed on the last line of the quoted input. It is that
line if and only if the line has no such mark. -/
theorem Sketch.quotedCode_of_parse (h : Sketch.parse source = .error e)
    (cause : e.cause = .noViable read) :
    ∃ code, source.slice? read.lo read.hi = some code ∧
      e.message source = "no viable alternative at input '" ++ String.ofList code ++ "'" ∧
      (¬Rule.quoteMark <:+: code ++ ['\''] →
        Rule.quotedCode (e.message source).toList = Rule.behindFeedMark code.lastLine ∧
          (Rule.quotedCode (e.message source).toList = code.lastLine ↔
            ¬Rule.feedMark <:+: code.lastLine)) := by
  obtain ⟨code, hcode⟩ := Option.isSome_iff_exists.1 (isQuotable_of_parse h read cause)
  have message : e.message source =
      "no viable alternative at input '" ++ String.ofList code ++ "'" := by
    rw [SyntaxError.message, cause]
    simp only [Text.slice, hcode, Option.getD_some]
  refine ⟨code, hcode, message, fun once => ?_⟩
  have text : (e.message source).toList = Rule.quoteMark ++ code ++ ['\''] := by
    have inner : (String.ofList code).toList = code := String.toList_ofList
    rw [message, String.toList_append, String.toList_append, inner]
    rfl
  have shown := Rule.quotedCode_message once
  rw [← text] at shown
  refine ⟨shown, ?_⟩
  rw [shown]
  exact Rule.behindFeedMark_eq_self_iff

/-- The escaped line feed of a string literal is taken for the end of a line, and what a comment says
can be taken for the start of the message. -/
theorem Sketch.quotedCode_ne_lastLine :
    let source : Text := "x = \"\\n\" + ;\n".toList
    let e : SyntaxError := ⟨.noViable ⟨0, 12⟩, ⟨11, 1, 11⟩⟩
    let other : Text := "x = /*no viable alternative at input '*/;\n".toList
    let e' : SyntaxError := ⟨.noViable ⟨0, 41⟩, ⟨40, 1, 40⟩⟩
    Sketch.parse source = .error e ∧
      Rule.quotedCode (e.message source).toList = "\" + ;".toList ∧
      Sketch.parse other = .error e' ∧
      Rule.quotedCode (e'.message other).toList = "x = /**/;".toList := by
  intro source e other e'
  exact ⟨Sketch.parse_eq_error (by decide +kernel), by decide +kernel,
    Sketch.parse_eq_error (by decide +kernel), by decide +kernel⟩

end SketchPrep
