import SketchPrep.Proofs.Diagnosis.LastToken
import SketchPrep.Proofs.Finding.Walk
import SketchPrep.Proofs.Preprocess.Stages
import SketchPrep.Proofs.Preprocess.Substitution
import SketchPrep.Proofs.Syntax.Quotation

/-!
Preprocessing has an outcome for every sketch. Main statement: `exists_outcome`, if the configured
imports are valid then no two edits clash and no character is cut, whether there are issues or not,
and the run has an outcome just if there is room for its indentation.
-/

namespace SketchPrep

open Edit Text Token

theorem Span.OnEdges.isBoundary {source : Text} {ts : List Token} {a : Span} (h : a.OnEdges ts)
    (laid : LaidOut source ts) : IsBoundary source a.lo ∧ IsBoundary source a.hi := by
  obtain ⟨-, ⟨t, ht, hlo⟩, u, hu, hhi⟩ := h
  rw [hlo]
  refine ⟨(laid.lies t ht).isBoundary_start, ?_⟩
  rcases hhi with hhi | hhi
  · exact hhi ▸ (laid.lies u hu).isBoundary_start
  · exact hhi ▸ (laid.lies u hu).isBoundary_stop

namespace Finding

variable {source : Text} {ts : List Token} {fs : List Finding}

theorem Tidy.recordable (h : Tidy ts fs) (laid : LaidOut source ts) :
    Recordable source (edits fs) := by
  have boundaries : ∀ e ∈ edits fs, IsBoundary source e.offset ∧ IsBoundary source e.stop := by
    intro e he
    have edges := h.onEdges e he
    cases e with
    | insert o x =>
      obtain ⟨t, ht, rfl | rfl⟩ := edges
      · exact ⟨(laid.lies t ht).isBoundary_start, (laid.lies t ht).isBoundary_start⟩
      · exact ⟨(laid.lies t ht).isBoundary_stop, (laid.lies t ht).isBoundary_stop⟩
    | delete o n =>
      obtain ⟨-, ⟨t, ht, hlo⟩, u, hu, hhi⟩ := edges
      rw [offset_delete, stop_delete, hhi, hlo]
      exact ⟨(laid.lies t ht).isBoundary_start, (laid.lies u hu).isBoundary_stop⟩
  refine ⟨fun e he => ?_, boundaries, h.apart⟩
  have stop := (boundaries e he).2.le_size
  cases e with
  | insert o x => exact stop
  | delete o n => exact ⟨(h.onEdges _ he).1, stop⟩

/-- The arguments of calls that may move can be copied. -/
theorem Tidy.copies (h : Tidy ts fs) (laid : LaidOut source ts) :
    ∀ call ∈ fs.filterMap call?, Settings.Copies source call := by
  intro call hcall e he
  obtain ⟨f, hf, hfcall⟩ := List.mem_filterMap.1 hcall
  cases f with
  | candidate c =>
    obtain rfl := Option.some.inj hfcall
    have edges := h.quotes _ hf e.span (List.mem_map_of_mem he)
    obtain ⟨lo, hi⟩ := edges.isBoundary laid
    exact slice?_isSome lo hi edges.le
  | _ => cases hfcall

end Finding

theorem Item.eq_of_bare? {i : Item} {st : Stmt} (h : i.bare? = some st) : i = .stmt st := by
  cases i with
  | stmt s =>
    simp only [Item.bare?] at h
    split at h <;> cases h
    rfl
  | _ => cases h

theorem Tab.lineColumn?_isSome {tabs : List Tab} {offset : Nat}
    (h : IsBoundary (join tabs) offset) : (lineColumn? tabs offset).isSome := by
  have cut : ((join tabs).split? offset).isSome := h
  simpa only [lineColumn?, Nat.min_eq_left h.le_size, Option.isSome_map] using cut

namespace Preprocess

/-- The imports that the options ask for have valid names. -/
def ImportsValid (o : Options) : Prop :=
  ∀ names ∈ [o.coreImports, o.codeFolderPackages.map ImportTiers.codeFolderName, o.defaultImports],
    ∀ name ∈ names, (ImportStatement.parse name).isOk

instance (o : Options) : Decidable (ImportsValid o) :=
  inferInstanceAs (Decidable (∀ names ∈ _, ∀ name ∈ names, _))

theorem importsValid_standard : ImportsValid .standard := by decide +kernel

theorem parseAll_eq_ok {names : List String}
    (h : ∀ name ∈ names, (ImportStatement.parse name).isOk) :
    ∃ is, ImportTiers.parseAll names = .ok is := by
  unfold ImportTiers.parseAll
  induction names with
  | nil => exact ⟨[], rfl⟩
  | cons name names ih =>
    obtain ⟨is, his⟩ := ih fun n hn => h n (.tail _ hn)
    have first := h name (.head _)
    cases hname : ImportStatement.parse name with
    | error => rw [hname] at first; cases first
    | ok i => exact ⟨i :: is, by simp [List.mapM_cons, hname, his]; rfl⟩

theorem importTiers_eq_ok {o : Options} (h : ImportsValid o) (discovered : List ImportStatement) :
    ∃ tiers, importTiers o discovered = .ok tiers := by
  obtain ⟨core, hcore⟩ := parseAll_eq_ok (h o.coreImports (by simp))
  obtain ⟨folder, hfolder⟩ := parseAll_eq_ok 
    (h (o.codeFolderPackages.map ImportTiers.codeFolderName) (by simp))
  obtain ⟨standard, hstandard⟩ := parseAll_eq_ok (h o.defaultImports (by simp))
  refine ⟨⟨core, folder, discovered, standard⟩, ?_⟩
  rw [importTiers, hcore, hfolder, hstandard]
  rfl

/-- The edits of a sketch never clash, with whatever header and footer and also if there are issues,
and no character is cut, neither where the arguments of a call are copied that may move, nor where
an issue is placed. -/
structure RunsSafely (o : Options) (tabs : List Tab) (s : Sketch) : Prop where
  carriesOut : ∀ header footer, ∃ draft text,
    carryOut o (Tab.join tabs) ⟨header, Finding.requests (findings o s), footer⟩ =
      .ok (draft, text) ∧ Recordable (Tab.join tabs) draft.edits
  copies : ∀ call ∈ (findings o s).filterMap Finding.call?, Settings.Copies (Tab.join tabs) call
  issues : ∀ i ∈ structuralIssues o s, (Tab.lineColumn? tabs i.offset).isSome

theorem exists_recorded {d : Draft} {qs : List Draft.Request}
    (h : Recordable d.source (d.edits ++ qs.map Draft.Request.edit)) :
    ∃ next, carryOut.recorded d qs = .ok next ∧ next.source = d.source ∧
      Recordable next.source next.edits :=
  ⟨{ d with edits := d.edits ++ qs.map Draft.Request.edit },
    by simp [carryOut.recorded, Draft.recordAll_of_recordable h], rfl, h⟩

theorem recordable_requests {source : Text} {p : Plan}
    (h : Recordable source (p.body.map Draft.Request.edit)) :
    Recordable source ((p.requests source.size).map Draft.Request.edit) := by
  have body := h.insert_zero p.header
  unfold Plan.requests
  split
  · simpa [Draft.insertBefore, Draft.Request.edit] using body
  · simpa [Draft.insertBefore, Draft.Request.edit] using body.insert_size p.footer

theorem carryOut_eq_ok (o : Options) {source : Text} {p : Plan}
    (h : Recordable source (p.body.map Draft.Request.edit)) :
    ∃ draft text, carryOut o source p = .ok (draft, text) ∧ Recordable source draft.edits := by
  obtain ⟨planned, hplanned, same, recordable⟩ :=
    @exists_recorded (.ofSource source) (p.requests source.size) (recordable_requests h)
  have hsource : planned.source = source := same
  unfold carryOut
  simp only [hplanned, bind, Except.bind]
  cases o.substituteUnicode with
  | false =>
    obtain ⟨text, htext⟩ := Option.isSome_iff_exists.1 (Draft.text?_of_recordable recordable)
    refine ⟨planned, text, ?_, hsource ▸ recordable⟩
    simp [pure, Except.pure, htext]
  | true =>
    obtain ⟨draft, hdraft, same', recordable'⟩ :=
      exists_recorded (recordable_substitution recordable)
    obtain ⟨text, htext⟩ := Option.isSome_iff_exists.1 (Draft.text?_of_recordable recordable')
    refine ⟨draft, text, ?_, hsource ▸ same' ▸ recordable'⟩
    simp [pure, Except.pure, hdraft, htext]

section CarriedOut

variable {o : Options} {source : Text}

theorem recorded_eq_ok {d next : Draft} {qs : List Draft.Request} (wf : d.WellFormed)
    (h : carryOut.recorded d qs = .ok next) :
    next = { d with edits := d.edits ++ qs.map Draft.Request.edit } ∧ next.WellFormed := by
  unfold carryOut.recorded at h
  split at h
  · rename_i last hrec
    obtain rfl := Except.ok.inj h
    have kept := Draft.wellFormed_recordAll wf qs
    rw [hrec] at kept
    exact ⟨(Draft.apart_of_recordAll wf hrec).2, kept⟩
  · cases h

theorem exists_of_bind_eq_ok {ε α β : Type} {x : Except ε α} {f : α → Except ε β} {r : β}
    (h : (x >>= f) = .ok r) : ∃ a, x = .ok a ∧ f a = .ok r := by
  cases x with
  | error => cases h
  | ok a => exact ⟨a, rfl, h⟩

/-- The edits that a run records last. -/
def lastEdits (o : Options) (planned : Draft) : List Edit :=
  if o.substituteUnicode then (substitution planned).map Draft.Request.edit else []

/-- A run records the plan and then the substitution of characters, if there is one. -/
theorem edits_of_carryOut {p : Plan} {draft : Draft} {text : Text}
    (h : carryOut o source p = .ok (draft, text)) :
    ∃ planned : Draft, planned.source = source ∧
      planned.edits = (p.requests source.size).map Draft.Request.edit ∧ draft.source = source ∧
      draft.edits = planned.edits ++ lastEdits o planned ∧ draft.WellFormed ∧
      draft.text? = some text := by
  obtain ⟨planned, hplanned, h⟩ := exists_of_bind_eq_ok h
  obtain ⟨heq, wf⟩ := recorded_eq_ok (Draft.wellFormed_ofSource source) hplanned
  have hsource : planned.source = source := by rw [heq]; rfl
  have hedits : planned.edits = (p.requests source.size).map Draft.Request.edit := by rw [heq]; rfl
  refine ⟨planned, hsource, hedits, ?_⟩
  unfold lastEdits
  dsimp only at h
  split at h
  · rename_i substitutes
    obtain ⟨last, hlast, h⟩ := exists_of_bind_eq_ok h
    obtain ⟨rfl, wf'⟩ := recorded_eq_ok wf hlast
    split at h
    · rename_i htext
      obtain ⟨rfl, rfl⟩ := Prod.mk.inj (Except.ok.inj h)
      exact ⟨hsource, by rw [if_pos substitutes], wf', htext⟩
    · cases h
  · rename_i substitutes
    rw [pure_bind] at h
    split at h
    · rename_i htext
      obtain ⟨rfl, rfl⟩ := Prod.mk.inj (Except.ok.inj h)
      exact ⟨hsource, by rw [if_neg substitutes, List.append_nil], wf, htext⟩
    · cases h

/-- The draft with the edits of the plan. -/
def Plan.draft (source : Text) (p : Plan) : Draft :=
  { Draft.ofSource source with edits := (p.requests source.size).map Draft.Request.edit }

/-- All edits of a plan that is carried out. -/
def Plan.edits (o : Options) (source : Text) (p : Plan) : List Edit :=
  (p.draft source).edits ++ lastEdits o (p.draft source)

theorem edits_eq_of_carryOut {p : Plan} {draft : Draft} {text : Text}
    (h : carryOut o source p = .ok (draft, text)) : draft.edits = p.edits o source := by
  obtain ⟨planned, hsource, hplan, -, hdraft, -, -⟩ := edits_of_carryOut h
  have whole : planned = p.draft source := by
    obtain ⟨_, _, _, rfl⟩ := planned
    obtain rfl := hsource
    rw [Plan.draft, ← hplan]
    rfl
  rw [hdraft, whole, Plan.edits]

theorem deletes_draft (p : Plan) :
    (p.draft source).deletes = ((Plan.mk [] p.body []).draft source).deletes := by
  unfold Draft.deletes Plan.draft Plan.requests
  cases p.footer <;>
    simp [Draft.insertBefore, Draft.Request.edit, deleted?, List.filterMap_cons]

/-- What stands around a sketch has no part in what is deleted. -/
theorem deletes_edits (p : Plan) : (p.edits o source).filterMap deleted? =
    ((Plan.mk [] p.body []).edits o source).filterMap deleted? := by
  have planned := @deletes_draft source p
  have last : lastEdits o (p.draft source) = lastEdits o ((Plan.mk [] p.body []).draft source) := by
    rw [lastEdits, lastEdits, substitution, substitution, substitutionRequests_congr planned]
    rfl
  rw [Plan.edits, Plan.edits, List.filterMap_append, List.filterMap_append, last]
  exact congrArg (· ++ _) planned

end CarriedOut

/-! ### Issues -/

theorem exists_item_of_mixedModeIssues {s : Sketch} {i : StructuralIssue}
    (h : i ∈ mixedModeIssues s) : ∃ item ∈ s.items, i.offset = item.span.lo := by
  obtain ⟨stmt, hstmt, rfl⟩ := Option.map_eq_some_iff.1 (Option.mem_toList.1 h)
  unfold Sketch.mixedModeConflict? at hstmt
  split at hstmt
  · obtain ⟨item, hitem, hbare⟩ := List.exists_of_findSome?_eq_some hstmt
    obtain rfl := Item.eq_of_bare? hbare
    exact ⟨_, hitem, rfl⟩
  · cases hstmt

theorem exists_item_of_discover {items : List Item} {i : StructuralIssue}
    (h : i ∈ (ImportTiers.discover items).2) : ∃ item ∈ items, i.offset = item.span.lo := by
  obtain ⟨⟨decl, r⟩, hfound, hi⟩ := List.mem_filterMap.1 h
  obtain ⟨item, hitem, hdecl⟩ := List.mem_filterMap.1 hfound
  refine ⟨item, hitem, ?_⟩
  cases item with
  | importation d =>
    obtain ⟨rfl, rfl⟩ := Prod.mk.inj (Option.some.inj hdecl)
    simp only at hi
    split at hi <;> cases hi
    rfl
  | _ => cases hdecl

/-! ### Running -/

theorem runsSafely {o : Options} {tabs : List Tab} {s : Sketch}
    (h : Sketch.parse (Tab.join tabs) = .ok s) : RunsSafely o tabs s := by
  obtain ⟨ts, hts, spells⟩ := s.spells_of_parse h
  have laid := laidOut_of_tokenize hts
  have tidy : Finding.Tidy ts.body (findings o s) := Finding.tidy_ofItems spells laid
  have recordable := tidy.recordable laid
  refine ⟨fun header footer => carryOut_eq_ok o (p := ⟨header, _, footer⟩) recordable,
    tidy.copies laid, ?_⟩
  · have ofItem : ∀ i, (∃ item ∈ s.items, i = item.span.lo) → IsBoundary (Tab.join tabs) i := by
      rintro i ⟨item, hitem, rfl⟩
      exact ((Finding.onEdges_item spells laid hitem).isBoundary laid).1
    intro i hi
    refine Tab.lineColumn?_isSome ?_
    rcases List.mem_append.1 hi with hi | hi
    · rcases List.mem_append.1 hi with hi | hi
      · exact ofItem _ (exists_item_of_mixedModeIssues hi)
      · exact ofItem _ (exists_item_of_discover hi)
    · obtain ⟨f, hf, hfi⟩ := List.mem_filterMap.1 hi
      cases f with
      | issue j =>
        obtain rfl := Option.some.inj hfi
        exact ((tidy.quotes _ hf _ (List.mem_singleton_self _)).isBoundary laid).1
      | _ => cases hfi

/-- A plan can always be carried out. -/
theorem exists_carriedOut (o : Options) {tabs : List Tab} {s : Sketch}
    (hs : Sketch.parse (Tab.join tabs) = .ok s) (tiers : ImportTiers) (date : String) :
    ∃ draft program,
      carryOut o (Tab.join tabs) (plan o (Tab.join tabs) s tiers date) = .ok (draft, program) ∧
        Recordable (Tab.join tabs) draft.edits :=
  (runsSafely hs).carriesOut _ _

/-- A successful run reads the sketch, has room for its indentation, finds no issue, and carries out
its plan. -/
theorem exists_result_of_success {o : Options} {t : MessageTable} {date : String} {tabs : List Tab}
    {p : PreprocessedSketch} (h : preprocess o t date tabs = .ok (.success p)) :
    ∃ s tiers draft, Sketch.parse (Tab.join tabs) = .ok s ∧
      importTiers o (ImportTiers.discover s.items).1 = .ok tiers ∧ ¬Cramped o s ∧
      structuralIssues o s = [] ∧
      carryOut o (Tab.join tabs) (plan o (Tab.join tabs) s tiers date) = .ok (draft, p.program) ∧
      p = result o (Tab.join tabs) s tiers date draft.edits p.program := by
  unfold preprocess at h
  cases hs : Sketch.parse (Tab.join tabs) with
  | error e => simp [hs] at h
  | ok s =>
    simp only [hs] at h
    have copies := (runsSafely (o := o) hs).copies
    cases htiers : importTiers o (ImportTiers.discover s.items).1 with
    | error e =>
      rw [ofSketch_of_invalid htiers] at h
      cases h
    | ok tiers =>
      by_cases header : HeaderCramped o s
      · rw [ofSketch_of_headerCramped htiers header] at h
        cases h
      · by_cases none : structuralIssues o s = []
        · by_cases cramped : Cramped o s
          · rw [ofSketch_of_cramped htiers copies header cramped] at h
            cases h
          · obtain ⟨draft, program, carried, -⟩ := exists_carriedOut o hs tiers date
            rw [ofSketch_of_carriedOut htiers copies cramped none carried] at h
            obtain rfl := Outcome.success.inj (Except.ok.inj h)
            exact ⟨s, tiers, draft, rfl, htiers, cramped, none, carried, rfl⟩
        · rw [ofSketch_of_issues htiers copies header none] at h
          cases h

section Run

variable {o : Options} {t : MessageTable} {date : String} {tabs : List Tab} {s : Sketch}
  (valid : ImportsValid o) (hs : Sketch.parse (Tab.join tabs) = .ok s)

include valid hs

theorem preprocess_of_issues (room : ¬HeaderCramped o s) (ill : structuralIssues o s ≠ [])
    (t : MessageTable) (date : String) : preprocess o t date tabs =
      .ok (.failure ((structuralIssues o s).map (structuralIssue t tabs))) := by
  obtain ⟨tiers, htiers⟩ := importTiers_eq_ok valid (ImportTiers.discover s.items).1
  simp only [preprocess, hs]
  exact ofSketch_of_issues htiers (runsSafely hs).copies room ill

theorem preprocess_of_cramped (cramped : Cramped o s) :
    preprocess o t date tabs = .error .noRoom := by
  obtain ⟨tiers, htiers⟩ := importTiers_eq_ok valid (ImportTiers.discover s.items).1
  simp only [preprocess, hs]
  by_cases header : HeaderCramped o s
  · exact ofSketch_of_headerCramped htiers header
  · exact ofSketch_of_cramped htiers (runsSafely hs).copies header cramped

theorem exists_success (room : ¬Cramped o s) (none : structuralIssues o s = []) (t : MessageTable)
    (date : String) : ∃ tiers p, importTiers o (ImportTiers.discover s.items).1 = .ok tiers ∧
      preprocess o t date tabs = .ok (.success p) ∧
      p.edits = (plan o (Tab.join tabs) s tiers date).edits o (Tab.join tabs) ∧
      Recordable (Tab.join tabs) p.edits := by
  obtain ⟨tiers, htiers⟩ := importTiers_eq_ok valid (ImportTiers.discover s.items).1
  obtain ⟨draft, program, carried, recordable⟩ := exists_carriedOut o hs tiers date
  simp only [preprocess, hs]
  exact ⟨tiers, _, htiers, ofSketch_of_carriedOut htiers (runsSafely hs).copies room none carried,
    edits_eq_of_carryOut carried, recordable⟩

end Run

theorem ok_of_toOption {ε α : Type} {x : Except ε α} {a : α} (h : x.toOption = some a) :
    x = .ok a := by
  cases x with
  | error => cases h
  | ok b => rw [Option.some.inj h]

/-- A run on tabs of ordinary width, and what it deletes. -/
theorem exists_success_deleting {o : Options} {tabs : List Tab} {spans : List Span}
    (valid : ImportsValid o) (room : 3 * o.tabSize < stringLimit)
    (h : (Sketch.parse (Tab.join tabs)).toOption.any fun s =>
      decide (structuralIssues o s = []) && decide (((Plan.mk [] (Finding.requests (findings o s))
        []).edits o (Tab.join tabs)).filterMap deleted? = spans)) (t : MessageTable)
    (date : String) : ∃ p, preprocess o t date tabs = .ok (.success p) ∧
      p.edits.filterMap deleted? = spans := by
  obtain ⟨s, hs, h⟩ := (Option.any_eq_true ..).1 h
  simp only [Bool.and_eq_true, decide_eq_true_eq] at h
  obtain ⟨tiers, p, -, ran, edits, -⟩ :=
    exists_success valid (ok_of_toOption hs) (not_cramped room s) h.1 t date
  exact ⟨p, ran, by rw [edits, deletes_edits]; exact h.2⟩

end Preprocess

end SketchPrep
