import SketchPrep.Proofs.Edit.Order
import SketchPrep.Proofs.Preprocess.Frame
import SketchPrep.Proofs.Sketch.Lines
import SketchPrep.Proofs.Token.Ending

/-!
From the program of a run back to its tabs. Main statement: `toSketch_within_tab`, what stands before
the footer goes back into a tab, the rest to the end of the buffer, which lies behind the last tab.
-/

namespace SketchPrep

open Text Token

namespace Tab

variable {tabs : List Tab} {t : Tab} {k i offset : Nat}

theorem startOf_add_size (h : tabs[k]? = some t) (last : k + 1 = tabs.length) :
    startOf tabs k + (t.text.size + 1) = (join tabs).size := by
  have others : tabs.drop (k + 1) = [] := List.drop_eq_nil_of_le (Nat.le_of_eq last.symm)
  rw [startOf_eq h, join_eq h, size_append, size_join_cons, others, join_nil, size_nil,
    Nat.add_zero]

/-- An offset of the buffer is one of a tab, its end included, or the end of the buffer. -/
theorem exists_startOf_add (nonempty : tabs ≠ []) (h : offset ≤ (join tabs).size) :
    ∃ k t i, tabs[k]? = some t ∧ offset = startOf tabs k + i ∧
      (i ≤ t.text.size ∨ k + 1 = tabs.length ∧ i = t.text.size + 1) := by
  induction tabs generalizing offset with
  | nil => exact absurd rfl nonempty
  | cons t tabs ih =>
    rw [size_join_cons] at h
    have start : startOf (t :: tabs) 0 = 0 := startOf_eq rfl
    by_cases here : offset ≤ t.text.size
    · exact ⟨0, t, offset, rfl, by omega, .inl here⟩
    · by_cases last : tabs = []
      · subst last
        rw [join_nil, size_nil] at h
        exact ⟨0, t, offset, rfl, by omega, .inr ⟨rfl, by omega⟩⟩
      · obtain ⟨k, u, i, tab, place, within⟩ := @ih (offset - (t.text.size + 1)) last (by omega)
        refine ⟨k + 1, u, i, tab, ?_, by simpa using within⟩
        rw [startOf_eq tab] at place
        rw [startOf_eq (show (t :: tabs)[k + 1]? = some u from tab), List.take_succ_cons,
          size_join_cons]
        omega

/-- The tab that holds an offset holds it up to its end, unless the offset is that of the end of the
buffer. -/
theorem indexOfOffset_within (nonempty : tabs ≠ []) (h : offset ≤ (join tabs).size) :
    ∃ t, tabs[indexOfOffset tabs offset]? = some t ∧
      (offset < (join tabs).size → offset - startOf tabs (indexOfOffset tabs offset) ≤ t.text.size) ∧
      (offset = (join tabs).size → indexOfOffset tabs offset + 1 = tabs.length ∧
        offset - startOf tabs (indexOfOffset tabs offset) = t.text.size + 1) := by
  obtain ⟨k, t, i, tab, rfl, within⟩ := exists_startOf_add nonempty h
  have held : indexOfOffset tabs (startOf tabs k + i) = k :=
    indexOfOffset_of_or tab (within.imp_right And.left)
  rw [held, Nat.add_sub_cancel_left]
  rcases within with inside | ⟨last, rfl⟩
  · have before := startOf_add_lt tab inside
    exact ⟨t, tab, fun _ => inside, fun stop => absurd stop (Nat.ne_of_lt before)⟩
  · have stop := startOf_add_size tab last
    exact ⟨t, tab, fun before => absurd stop (Nat.ne_of_lt before), fun _ => ⟨last, rfl⟩⟩

theorem exists_join_concat (nonempty : tabs ≠ []) : ∃ cs, join tabs = cs ++ ['\n'] := by
  obtain ⟨init, t, rfl⟩ := (List.eq_nil_or_concat tabs).resolve_left nonempty
  exact ⟨join init ++ t.text, by simp [join]⟩

end Tab

/-- No token reaches over a line feed that the text ends with. -/
theorem Token.stop_lt_size {cs : Text} {ts : Tokens} (h : tokenize (cs ++ ['\n']) = .ok ts) :
    ∀ t ∈ ts.body, t.stop < (cs ++ ['\n']).size := by
  intro t ht
  obtain ⟨before, word, behind, whole, -, text, -, stop⟩ := (laidOut_of_tokenize h).lies t ht
  obtain ⟨rest, lexeme⟩ := Lexer.exists_lexeme_of_tokenize h t ht
  rw [text, String.toList_ofList] at lexeme
  obtain ⟨u, d, rfl, visible⟩ := lexeme.exists_last
  have more : behind ≠ [] := by
    rintro rfl
    rw [List.append_nil, ← List.append_assoc] at whole
    obtain ⟨-, feed⟩ := List.append_inj' whole rfl
    rw [← (List.cons.inj feed).1] at visible
    cases visible
  have rest := mt size_eq_zero_iff.1 more
  rw [whole, size_append, size_append, stop, size_append]
  omega

namespace Edit

variable {source out : Text} {es : List Edit} {m : OffsetMap} {a : Text} {c : Char} {j : Nat}

/-- The edited text ends with what is inserted at the end of the source. -/
theorem exists_front_concat (es : List Edit) (a : Text) (c : Char) :
    ∃ kept, front es (a ++ [c]) = kept ++ insertedAt es (a ++ [c]).size := by
  refine ⟨front es a ++ if deletesAt es a.size then [] else [c], ?_⟩
  rw [front_append, List.append_assoc]
  simp [renderFrom]

/-- What is not inserted at the end of the source goes back to an offset before it. -/
theorem Recordable.toInput_lt_iff {kept : Text} (h : Recordable source es)
    (hm : makeAll? source es = some (kept ++ insertedAt es source.size, m)) :
    m.toInput j < source.size ↔ j < kept.size := by
  have whole := h.size_eq hm
  rw [size_append, landing, Nat.add_right_cancel_iff] at whole
  rw [← Nat.not_le, h.le_toInput_iff hm (Nat.le_refl _), ← whole, Nat.not_le]

end Edit

namespace Preprocess

open Edit

variable {o : Options} {t : MessageTable} {date : String} {tabs : List Tab} {p : PreprocessedSketch}

/-- The walk inserts nothing at the end of the buffer. -/
theorem offset_lt_of_mem_findings {s : Sketch} {e : Edit} (nonempty : tabs ≠ [])
    (hs : Sketch.parse (Tab.join tabs) = .ok s) (he : e ∈ Finding.edits (findings o s)) :
    e.offset < (Tab.join tabs).size := by
  obtain ⟨cs, joined⟩ := Tab.exists_join_concat nonempty
  obtain ⟨ts, hts, spells⟩ := Sketch.spells_of_parse hs
  have laid := laidOut_of_tokenize hts
  obtain ⟨-, -, u, hu, -, stop⟩ := (Finding.tidy_ofItems spells laid).bounds laid he
  rw [joined] at hts ⊢
  have before := stop_lt_size hts u hu
  have inside := e.offset_le_stop
  omega

/-- At the end of the buffer the footer is inserted and nothing else. -/
theorem exists_footer_at_end (nonempty : tabs ≠ [])
    (h : preprocess o t date tabs = .ok (.success p)) :
    ∃ s, Sketch.parse (Tab.join tabs) = .ok s ∧
      insertedAt p.edits (Tab.join tabs).size = footerText o (Tab.join tabs) s := by
  obtain ⟨s, header, draft, hs, -, -, carried, hedits⟩ := framed_of_success h
  obtain ⟨planned, source, plan, -, hdraft, -, -⟩ := edits_of_carryOut carried
  have behind : (Tab.join tabs).size ≠ 0 := by
    obtain ⟨cs, joined⟩ := Tab.exists_join_concat nonempty
    simp [joined, show ('\n').utf8Size = 1 from rfl]
  have front : insertedAt [.insert 0 header] (Tab.join tabs).size = [] :=
    insertedAt_insert_of_ne behind.symm header
  have body : insertedAt (Finding.edits (findings o s)) (Tab.join tabs).size = [] :=
    insertedAt_eq_nil fun text inserted =>
      Nat.lt_irrefl _ (offset_lt_of_mem_findings nonempty hs inserted)
  have footer (text : Text) : insertedAt (if text = [] then [] else
      [.insert (Tab.join tabs).size text]) (Tab.join tabs).size = text := by
    split
    · rename_i none
      rw [none]
      rfl
    · exact insertedAt_insert_self _ _
  have last : insertedAt (lastEdits o planned) (Tab.join tabs).size = [] := by
    refine insertedAt_eq_nil fun text inserted => ?_
    unfold lastEdits at inserted
    split at inserted
    · have before := lt_size_of_mem_substitution inserted
      rw [source, Nat.zero_add] at before
      exact Nat.lt_irrefl _ before
    · cases inserted
  refine ⟨s, hs, ?_⟩
  rw [hedits, hdraft, plan, map_edit_requests, insertedAt_append, last, List.append_nil,
    insertedAt_append, footer, insertedAt_cons, front, List.nil_append]
  exact congrArg (· ++ _) body

/-- Of a program, what stands before the footer comes from before the end of the buffer. -/
theorem exists_toInput_lt_iff (nonempty : tabs ≠ [])
    (h : preprocess o t date tabs = .ok (.success p)) :
    ∃ s kept offsets, Sketch.parse (Tab.join tabs) = .ok s ∧
      p.program = kept ++ footerText o (Tab.join tabs) s ∧
      makeAll? (Tab.join tabs) p.edits = some (p.program, offsets) ∧
      ∀ j, offsets.toInput j ≤ (Tab.join tabs).size ∧
        (offsets.toInput j < (Tab.join tabs).size ↔ j < kept.size) := by
  obtain ⟨recordable, offsets, made⟩ := recordable_of_success h
  obtain ⟨s, hs, footer⟩ := exists_footer_at_end nonempty h
  obtain ⟨cs, joined⟩ := Tab.exists_join_concat nonempty
  obtain ⟨kept, rendered⟩ := exists_front_concat p.edits cs '\n'
  rw [← joined, footer] at rendered
  have program : p.program = kept ++ footerText o (Tab.join tabs) s := (program_eq h).trans rendered
  refine ⟨s, kept, offsets, hs, program, made, fun j => ⟨recordable.toInput_le made j, ?_⟩⟩
  exact recordable.toInput_lt_iff (by rw [footer, ← program, made])

/-- An offset of the program that stands before the footer goes back into a tab that there is, no
further than to the end of its text. The footer, and all that lies beyond the program, goes back to
the end of the buffer, one byte behind the text of the last tab. -/
theorem toSketch_within_tab (h : preprocess o t date tabs = .ok (.success p))
    (nonempty : tabs ≠ []) :
    ∃ s kept m, Sketch.parse (Tab.join tabs) = .ok s ∧
      p.program = kept ++ footerText o (Tab.join tabs) s ∧ p.programMap? tabs = some m ∧
      ∀ j, ∃ tab, tabs[(m.toSketch j j).tabIndex]? = some tab ∧
        (j < kept.size → (m.toSketch j j).startTabOffset ≤ tab.text.size) ∧
        (kept.size ≤ j → (m.toSketch j j).tabIndex + 1 = tabs.length ∧
          (m.toSketch j j).startTabOffset = tab.text.size + 1) := by
  obtain ⟨s, kept, offsets, hs, program, made, back⟩ := exists_toInput_lt_iff nonempty h
  refine ⟨s, kept, ⟨tabs, p.program, offsets⟩, hs, program, ?_, fun j => ?_⟩
  · rw [PreprocessedSketch.programMap?, ProgramMap.ofEdits?, made]
    rfl
  · obtain ⟨le, before⟩ := back j
    obtain ⟨tab, held, inside, last⟩ := Tab.indexOfOffset_within nonempty le
    refine ⟨tab, held, fun lt => inside (before.2 lt), fun ge => last ?_⟩
    exact Nat.le_antisymm le (Nat.not_lt.1 fun lt => Nat.not_lt.2 ge (before.1 lt))

/-- Options of a program without a banner and without imports. -/
def bareOptions : Options :=
  { Options.standard with testing := true, coreImports := [], defaultImports := [] }

/-- Two tabs, the second of which is empty. -/
theorem toSketch_within_empty_tab :
    let tabs : List Tab := [⟨"a", "int x = 1;".toList⟩, ⟨"b", []⟩]
    ∃ p, preprocess bareOptions .standard "" tabs = .ok (.success p) ∧ tabs ≠ [] ∧
      ∃ s kept m, Sketch.parse (Tab.join tabs) = .ok s ∧
        p.program = kept ++ footerText bareOptions (Tab.join tabs) s ∧
        p.programMap? tabs = some m ∧
        ∀ j, ∃ tab, tabs[(m.toSketch j j).tabIndex]? = some tab ∧
          (j < kept.size → (m.toSketch j j).startTabOffset ≤ tab.text.size) ∧
          (kept.size ≤ j → (m.toSketch j j).tabIndex + 1 = tabs.length ∧
            (m.toSketch j j).startTabOffset = tab.text.size + 1) := by
  intro tabs
  obtain ⟨-, p, -, ran, -⟩ := @exists_run bareOptions tabs (fun _ _ => true)
    (by decide +kernel) (by decide) rfl (by decide +kernel)
  have nonempty : tabs ≠ [] := by decide
  exact ⟨p, ran, nonempty, toSketch_within_tab ran nonempty⟩

/-- The last byte of the footer goes back behind the text of the only tab. -/
theorem toSketch_beyond_tab :
    let tabs : List Tab := [⟨"a", "int x;".toList⟩]
    ∃ p m, preprocess bareOptions .standard "" tabs = .ok (.success p) ∧
      p.programMap? tabs = some m ∧ ∃ j, j + 1 = p.program.size ∧
        ¬∃ tab, tabs[(m.toSketch j j).tabIndex]? = some tab ∧
          (m.toSketch j j).startTabOffset ≤ tab.text.size := by
  intro tabs
  obtain ⟨s, p, hs, ran, framed⟩ := @exists_run bareOptions tabs
    (fun s _ => decide (s.mode ≠ .java)) (by decide +kernel) (by decide) rfl (by decide +kernel)
  obtain ⟨s', kept, offsets, hs', program, made, back⟩ := exists_toInput_lt_iff (by decide) ran
  obtain rfl := Except.ok.inj (hs'.symm.trans hs)
  obtain ⟨-, foots, -⟩ := framed_of_parse hs ran
  have footer := mt size_eq_zero_iff.1 (foots.ne_nil (of_decide_eq_true framed))
  have sizes : p.program.size = kept.size + (footerText bareOptions (Tab.join tabs) s').size := by
    rw [program, size_append]
  have stop : offsets.toInput (p.program.size - 1) = 7 := by
    obtain ⟨le, before⟩ := back (p.program.size - 1)
    have whole : (Tab.join tabs).size = 7 := by decide
    rw [whole] at le before
    omega
  refine ⟨p, ⟨tabs, p.program, offsets⟩, ran, ?_, p.program.size - 1, by omega, ?_⟩
  · rw [PreprocessedSketch.programMap?, ProgramMap.ofEdits?, made]
    rfl
  · simp only [ProgramMap.toSketch, stop]
    decide

end Preprocess

end SketchPrep
