import SketchPrep.Proofs.Preprocess.Preservation

/-!
The program of a successful run. Main statements: `exists_edits_of_success`, the edits that the run
puts together; `program_eq`, the program is these edits made in one pass over the tabs.
-/

namespace SketchPrep.Preprocess

open Edit Text

variable {o : Options} {t : MessageTable} {date : String} {tabs : List Tab} {s : Sketch}
  {tiers : ImportTiers}

/-- The edits of a plan: the header first, the footer last if there is one. -/
theorem map_edit_requests (p : Plan) (size : Nat) :
    (p.requests size).map Draft.Request.edit =
      .insert 0 p.header :: p.body.map Draft.Request.edit ++
        if p.footer = [] then [] else [.insert size p.footer] := by
  unfold Plan.requests
  rw [List.map_append, List.map_append]
  cases p.footer <;> rfl

/-- The edits of a run: its header, what the walk found, its footer, the characters. -/
theorem exists_edits_of_success {p : PreprocessedSketch}
    (h : preprocess o t date tabs = .ok (.success p)) :
    ∃ s tiers planned, Sketch.parse (Tab.join tabs) = .ok s ∧
      importTiers o (ImportTiers.discover s.items).1 = .ok tiers ∧
      p.headerLines = (headerText o s tiers date).count '\n' ∧
      p.edits = .insert 0 (headerText o s tiers date) :: (Finding.edits (findings o s) ++
        (if footerText o (Tab.join tabs) s = [] then []
          else [.insert (Tab.join tabs).size (footerText o (Tab.join tabs) s)]) ++
        lastEdits o planned) := by
  obtain ⟨s, tiers, draft, hs, htiers, -, -, carried, hp⟩ := exists_result_of_success h
  obtain ⟨planned, -, hplan, -, hdraft, -, -⟩ := edits_of_carryOut carried
  refine ⟨s, tiers, planned, hs, htiers, by rw [hp]; rfl, ?_⟩
  have made : p.edits = draft.edits := by rw [hp]; rfl
  rw [made, hdraft, hplan, map_edit_requests]
  rfl

theorem text_of_carryOut {source text : Text} {p : Plan} {draft : Draft}
    (h : carryOut o source p = .ok (draft, text)) (recordable : Recordable source draft.edits) :
    text = insertedAt draft.edits 0 ++ renderFrom draft.edits 0 source := by
  obtain ⟨-, -, -, hsource, -, wf, htext⟩ := edits_of_carryOut h
  have rendered := Draft.text?_eq wf (by rw [hsource]; exact recordable.boundaries)
  rw [hsource, htext, Option.some.injEq] at rendered
  exact rendered

/-- The program is what one pass makes of the tabs. -/
theorem program_eq {p : PreprocessedSketch} (h : preprocess o t date tabs = .ok (.success p)) :
    p.program = insertedAt p.edits 0 ++ renderFrom p.edits 0 (Tab.join tabs) := by
  have recordable := (recordable_of_success h).1
  obtain ⟨s, tiers, draft, -, -, -, -, carried, hp⟩ := exists_result_of_success h
  have hedits : p.edits = draft.edits := by rw [hp]; rfl
  rw [hedits] at recordable ⊢
  exact text_of_carryOut carried recordable

end SketchPrep.Preprocess
