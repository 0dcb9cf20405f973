import SketchPrep.Proofs.Edit.Offsets
import SketchPrep.Proofs.Finding.Normalization
import SketchPrep.Proofs.Finding.Removal
import SketchPrep.Proofs.Preprocess.Safety

/-!
What becomes of the user's text. Main statements: `normalizes_literals`, a successful run writes the
literals anew that the walk comes to; `preserves_source`, each deletion takes out one of the things
that `Removal` lists, and all other bytes are in the program.
-/

namespace SketchPrep.Preprocess

open Edit Text Token

variable {o : Options} {source : Text}

/-! ### The edits of a run -/

theorem framed_of_success {t : MessageTable} {date : String} {tabs : List Tab}
    {p : PreprocessedSketch} (h : preprocess o t date tabs = .ok (.success p)) :
    ∃ s header draft, Sketch.parse (Tab.join tabs) = .ok s ∧ p.mode = s.mode ∧
      Foots o (Tab.join tabs) s ∧
      carryOut o (Tab.join tabs) ⟨header, Finding.requests (findings o s),
        footerText o (Tab.join tabs) s⟩ = .ok (draft, p.program) ∧ p.edits = draft.edits := by
  obtain ⟨s, tiers, draft, hs, -, room, none, carried, hp⟩ := exists_result_of_success h
  exact ⟨s, headerText o s tiers date, draft, hs, by rw [hp]; rfl, foots_of_not_cramped room none _,
    carried, by rw [hp]; rfl⟩

theorem carriedOut_of_success {t : MessageTable} {date : String} {tabs : List Tab}
    {p : PreprocessedSketch} (h : preprocess o t date tabs = .ok (.success p)) :
    ∃ s header footer draft, Sketch.parse (Tab.join tabs) = .ok s ∧
      carryOut o (Tab.join tabs) ⟨header, Finding.requests (findings o s), footer⟩ =
        .ok (draft, p.program) ∧ p.edits = draft.edits := by
  obtain ⟨s, header, draft, hs, -, -, carried, hedits⟩ := framed_of_success h
  exact ⟨s, header, _, draft, hs, carried, hedits⟩

theorem recordable_of_success {t : MessageTable} {date : String} {tabs : List Tab}
    {p : PreprocessedSketch} (h : preprocess o t date tabs = .ok (.success p)) :
    Recordable (Tab.join tabs) p.edits ∧
      ∃ m, makeAll? (Tab.join tabs) p.edits = some (p.program, m) := by
  obtain ⟨s, header, footer, draft, hs, carried, hedits⟩ := carriedOut_of_success h
  obtain ⟨draft', text', carried', recordable⟩ := (runsSafely hs).carriesOut header footer
  obtain ⟨rfl, -⟩ := Prod.mk.inj (Except.ok.inj (carried'.symm.trans carried))
  obtain ⟨-, -, -, hsource, -, wf, htext⟩ := edits_of_carryOut carried
  rw [hedits]
  obtain ⟨m, made⟩ := makeAll?_eq recordable.fits recordable.apart recordable.boundaries
  have rendered := Draft.text?_eq wf (by rw [hsource]; exact recordable.boundaries)
  rw [hsource, htext, Option.some.injEq] at rendered
  exact ⟨recordable, m, by rw [made, rendered]⟩

theorem mem_edits_of_mem_body {header footer : Text} {body : List Draft.Request} {size : Nat}
    {e : Edit} (h : e ∈ body.map Draft.Request.edit) :
    e ∈ ((Plan.mk header body footer).requests size).map Draft.Request.edit := by
  unfold Plan.requests
  rw [List.map_append, List.map_append]
  exact List.mem_append_left _ (List.mem_append_right _ h)

/-- What the walk finds to edit is among the edits of the run. -/
theorem mem_edits_of_success {t : MessageTable} {date : String} {tabs : List Tab}
    {p : PreprocessedSketch} (h : preprocess o t date tabs = .ok (.success p)) :
    ∃ s, Sketch.parse (Tab.join tabs) = .ok s ∧ ∀ e ∈ Finding.edits (findings o s), e ∈ p.edits := by
  obtain ⟨s, header, footer, draft, hs, carried, hedits⟩ := carriedOut_of_success h
  obtain ⟨planned, -, hplan, -, hdraft, -, -⟩ := edits_of_carryOut carried
  refine ⟨s, hs, fun e he => ?_⟩
  rw [hedits, hdraft, hplan]
  exact List.mem_append_left _ (mem_edits_of_mem_body he)

/-- A successful run writes each literal anew that has to be, a colour, a text block or a number
without suffix, unless it stands in a part that the walk leaves out. -/
theorem normalizes_literals {t : MessageTable} {date : String} {tabs : List Tab}
    {p : PreprocessedSketch} (h : preprocess o t date tabs = .ok (.success p)) :
    ∃ s ts, Sketch.parse (Tab.join tabs) = .ok s ∧ tokenize (Tab.join tabs) = .ok ts ∧
      ∀ x ∈ ts.body,
        (∀ e ∈ Finding.edits (Finding.ofToken ⟨s.mode, o.substituteUnicode⟩ x), e ∈ p.edits) ∨
          Finding.LeftOut ⟨s.mode, o.substituteUnicode⟩ s.phrases ts.body (findings o s) x := by
  obtain ⟨s, hs, edited⟩ := mem_edits_of_success h
  obtain ⟨ts, hts, spells⟩ := s.spells_of_parse hs
  refine ⟨s, ts, hs, hts, fun x hx => ?_⟩
  rcases Finding.ofToken_subset_or_leftOut spells hx with normalized | left
  · refine .inl fun e he => edited e ?_
    obtain ⟨q, hq, rfl⟩ := List.mem_map.1 he
    obtain ⟨f, hf, hfq⟩ := List.mem_filterMap.1 hq
    exact List.mem_map.2 ⟨q, List.mem_filterMap.2 ⟨f, normalized f hf, hfq⟩, rfl⟩
  · exact .inr left

/-! ### What is deleted -/

theorem exists_char_of_mem_substitution {d : Draft} {a cs : Text} {lo n : Nat}
    (h : .delete lo n ∈ (substitutionRequests d a.size cs).map Draft.Request.edit) :
    ∃ before c behind, a ++ cs = before ++ c :: behind ∧ CharClass.isAscii c = false ∧
      lo = Text.size before ∧ n = c.utf8Size := by
  induction cs generalizing a with
  | nil => simp [substitutionRequests] at h
  | cons c cs ih =>
    rw [map_edit_substitutionRequests, List.mem_append] at h
    rcases h with h | h
    · split at h
      · cases h
      · rename_i beyond
        simp only [Bool.or_eq_true, not_or, Bool.not_eq_true] at beyond
        simp only [charEdits, List.mem_cons, Edit.delete.injEq, reduceCtorEq, List.not_mem_nil,
          or_false] at h
        exact ⟨a, c, cs, rfl, beyond.1, h⟩
    · have rest := @ih (a ++ [c]) (by simpa using h)
      simpa using rest

theorem mem_body_of_delete {header footer : Text} {body : List Draft.Request} {size lo n : Nat}
    (h : .delete lo n ∈ ((Plan.mk header body footer).requests size).map Draft.Request.edit) :
    ∃ a, .delete a ∈ body ∧ lo = a.lo ∧ n = a.hi - a.lo := by
  obtain ⟨q, hq, he⟩ := List.mem_map.1 h
  cases q with
  | insert => cases he
  | delete a =>
    obtain ⟨rfl, rfl⟩ := Edit.delete.inj he
    refine ⟨a, ?_, rfl, rfl⟩
    unfold Plan.requests at hq
    split at hq <;> simpa [Draft.insertBefore] using hq

/-- Each deletion of a successful run takes out just one of the things that `Removal` lists, and all
other bytes of the tabs are in the program, once each and in their order. -/
theorem preserves_source {t : MessageTable} {date : String} {tabs : List Tab}
    {p : PreprocessedSketch} (h : preprocess o t date tabs = .ok (.success p)) :
    ∃ s ts, Sketch.parse (Tab.join tabs) = .ok s ∧ tokenize (Tab.join tabs) = .ok ts ∧
      (∀ lo n, .delete lo n ∈ p.edits → ∃! r : Removal,
        r.Covers (Tab.join tabs) o.substituteUnicode s.phrases ts.body p.edits ⟨lo, lo + n⟩) ∧
      Keeps (Tab.join tabs) p.edits p.program := by
  obtain ⟨recordable, m, made⟩ := recordable_of_success h
  obtain ⟨s, header, footer, draft, hs, carried, hedits⟩ := carriedOut_of_success h
  obtain ⟨ts, hts, spells⟩ := s.spells_of_parse hs
  have laid := laidOut_of_tokenize hts
  have spelled := spelled_of_tokenize hts
  refine ⟨s, ts, hs, hts, fun lo n hmem => ?_, recordable.keeps made⟩
  obtain ⟨planned, hsource, hplan, -, hdraft, -, -⟩ := edits_of_carryOut carried
  have fits := recordable.fits _ hmem
  have covered : ∃ r : Removal,
      r.Covers (Tab.join tabs) o.substituteUnicode s.phrases ts.body p.edits ⟨lo, lo + n⟩ := by
    rw [hedits, hdraft, List.mem_append] at hmem
    rcases hmem with hmem | hmem
    · rw [hplan] at hmem
      obtain ⟨a, ha, rfl, rfl⟩ := mem_body_of_delete hmem
      obtain ⟨r, hr⟩ := @Removal.exists_removal (Tab.join tabs) o.substituteUnicode _ _ _ _ spells
        spelled ha
      have whole : (⟨a.lo, a.lo + (a.hi - a.lo)⟩ : Span) = a := by
        simp only [Fits] at fits
        rw [Nat.add_sub_cancel' (by omega)]
      rw [whole]
      refine ⟨r, hr.mono (fun _ _ hx => hx) (fun _ ht => ht) fun e he => ?_⟩
      rw [hedits, hdraft, hplan]
      exact List.mem_append_left _ (mem_edits_of_mem_body he)
    · unfold lastEdits at hmem
      split at hmem
      · rename_i substitutes
        obtain ⟨before, c, behind, cut, beyond, rfl, rfl⟩ :=
          @exists_char_of_mem_substitution planned [] planned.source lo n hmem
        refine ⟨.character, substitutes, before, c, behind, ?_, beyond, rfl⟩
        rw [← hsource]
        exact cut
      · cases hmem
  obtain ⟨r, hr⟩ := covered
  exact ⟨r, hr, fun r' hr' => hr'.unique laid spelled hr⟩

/-- An import, a call that moves, a colour as type and as literal, a conversion and a letter beyond
ASCII are taken out. -/
theorem preserves_source_of_each_kind :
    let o := { Options.standard with substituteUnicode := true }
    let tabs : List Tab := [⟨"a", "import a.B;\nsize(2, 3);\ncolor c = #00ff00;".toList⟩,
      ⟨"b", "int i = int(\"é\");".toList⟩]
    ∃ p, preprocess o .standard "2020-01-01" tabs = .ok (.success p) ∧
    p.edits.filterMap deleted? =
      [⟨0, 11⟩, ⟨12, 23⟩, ⟨24, 29⟩, ⟨34, 41⟩, ⟨51, 54⟩, ⟨56, 58⟩] ∧
    ∃ s ts, Sketch.parse (Tab.join tabs) = .ok s ∧ tokenize (Tab.join tabs) = .ok ts ∧
      (∀ lo n, .delete lo n ∈ p.edits → ∃! r : Removal,
        r.Covers (Tab.join tabs) o.substituteUnicode s.phrases ts.body p.edits ⟨lo, lo + n⟩) ∧
      Keeps (Tab.join tabs) p.edits p.program := by
  intro o tabs
  have valid : ImportsValid o := importsValid_standard
  obtain ⟨p, ran, deleted⟩ := @exists_success_deleting o tabs
    [⟨0, 11⟩, ⟨12, 23⟩, ⟨24, 29⟩, ⟨34, 41⟩, ⟨51, 54⟩, ⟨56, 58⟩] valid (by decide)
    (by decide +kernel) .standard "2020-01-01"
  exact ⟨p, ran, deleted, preserves_source ran⟩

end SketchPrep.Preprocess
