import SketchPrep.Proofs.Import.Declaration
import SketchPrep.Proofs.Import.Tiers
import SketchPrep.Proofs.Preprocess.Frame

/-!
The imports of a program. Main statement: `imports_listed_once`, they are those of the options and
of the sketch, each of them once, and the header shows them tier by tier; only imports without a
point in their names are reported.
-/

namespace SketchPrep

open ImportStatement ImportTiers

theorem ImportTiers.map_of_parseAll {names : List String} {is : List ImportStatement}
    (h : parseAll names = .ok is) : names.map parse = is.map .ok := by
  unfold parseAll at h
  induction names generalizing is with
  | nil =>
    obtain rfl := Except.ok.inj h
    rfl
  | cons name names ih =>
    rw [List.mapM_cons] at h
    cases first : parse name with
    | error e =>
      rw [first] at h
      cases h
    | ok i =>
      cases rest : names.mapM parse with
      | error e =>
        rw [first, rest] at h
        cases h
      | ok js =>
        rw [first, rest] at h
        obtain rfl := Except.ok.inj h
        rw [List.map_cons, List.map_cons, first, ih rest]

theorem ImportTiers.isRead_of_map {names : List String} {is : List ImportStatement}
    (h : names.map parse = is.map .ok) : ∀ i ∈ is, i.IsRead := by
  intro i hi
  have listed : Except.ok i ∈ names.map parse := h ▸ List.mem_map_of_mem hi
  obtain ⟨name, -, read⟩ := List.mem_map.1 listed
  exact isRead_of_parse read

/-- The lines of each tier that has some, and a blank line behind them. -/
def Frame.importSection (tiers : List (List ImportStatement)) : String :=
  String.join ((tiers.filter (· ≠ [])).map fun tier =>
    String.join (tier.map (·.sourceLine ++ "\n")) ++ "\n")

theorem Frame.join_importLines (tiers : List (List ImportStatement)) :
    String.join (tiers.map importLines) = importSection tiers := by
  induction tiers with
  | nil => rfl
  | cons tier tiers ih =>
    cases tier with
    | nil => simpa [importSection, importLines] using ih
    | cons i tier => simpa [importSection, importLines] using ih

theorem Frame.exists_opening {o : Options} {mode : SketchMode} {tiers : List (List ImportStatement)}
    {date text : String} (h : header? o mode tiers date = some text) :
    ∃ opening, opening? o mode = some opening ∧
      text = packageLine o ++ banner o date ++ importSection tiers ++ opening := by
  obtain ⟨opening, hopening, made⟩ := Option.bind_eq_some_iff.1 h
  exact ⟨opening, hopening, by rw [← join_importLines, ← Option.some.inj made]⟩

namespace Preprocess

open Edit

variable {o : Options} {t : MessageTable} {date : String} {tabs : List Tab} {s : Sketch}
  {tiers : ImportTiers} {p : PreprocessedSketch}

/-- The imports of a program are those of the options and of the sketch, each where it is first asked
for, and the header shows them tier by tier. -/
structure ListsImports (o : Options) (date : String) (s : Sketch) (tiers : ImportTiers)
    (p : PreprocessedSketch) : Prop where
  core : o.coreImports.map parse = tiers.core.map .ok
  codeFolder : (o.codeFolderPackages.map codeFolderName).map parse = tiers.codeFolder.map .ok
  discovered : tiers.discovered.map sourceLine = s.importDecls.map ImportDecl.line
  standard : o.defaultImports.map parse = tiers.standard.map .ok
  imports : p.imports =
    fresh [] (tiers.core ++ tiers.codeFolder ++ tiers.discovered ++ tiers.standard)
  represented : ∀ d ∈ s.importDecls, ∃ i ∈ p.imports, i.sourceLine = d.line
  kept : (freshTiers [] tiers.listed).flatten = p.imports
  header : ∃ opening, Frame.opening? o s.mode = some opening ∧
    (Finding.Context.prepare ⟨s.mode, o.substituteUnicode⟩
      (Frame.packageLine o ++ Frame.banner o date ++
        Frame.importSection (freshTiers [] tiers.listed) ++ opening).toList) <+: p.program

theorem parsed_of_importTiers {discovered : List ImportStatement}
    (h : importTiers o discovered = .ok tiers) :
    o.coreImports.map parse = tiers.core.map .ok ∧
      (o.codeFolderPackages.map codeFolderName).map parse = tiers.codeFolder.map .ok ∧
      tiers.discovered = discovered ∧ o.defaultImports.map parse = tiers.standard.map .ok := by
  unfold importTiers at h
  cases core : parseAll o.coreImports with
  | error e =>
    rw [core] at h
    cases h
  | ok cs =>
    cases folder : parseAll (o.codeFolderPackages.map codeFolderName) with
    | error e =>
      rw [core, folder] at h
      cases h
    | ok fs =>
      cases standard : parseAll o.defaultImports with
      | error e =>
        rw [core, folder, standard] at h
        cases h
      | ok ss =>
        rw [core, folder, standard] at h
        obtain rfl := Except.ok.inj h
        exact ⟨map_of_parseAll core, map_of_parseAll folder, rfl, map_of_parseAll standard⟩

theorem header_of_success (hs : Sketch.parse (Tab.join tabs) = .ok s)
    (htiers : importTiers o (discover s.items).1 = .ok tiers)
    (h : preprocess o t date tabs = .ok (.success p)) : headerText o s tiers date <+: p.program := by
  obtain ⟨s', tiers', planned, hs', htiers', -, edits⟩ := exists_edits_of_success h
  obtain rfl := Except.ok.inj (hs'.symm.trans hs)
  obtain rfl := Except.ok.inj (htiers'.symm.trans htiers)
  rw [program_eq h, edits, insertedAt_cons, insertedAt_insert_self, List.append_assoc]
  exact List.prefix_append _ _

theorem isRead_of_importTiers (h : importTiers o (discover s.items).1 = .ok tiers) :
    ∀ tier ∈ tiers.listed, ∀ i ∈ tier, i.IsRead := by
  obtain ⟨core, folder, found, standard⟩ := parsed_of_importTiers h
  have own : ∀ i ∈ tiers.discovered, i.IsRead := by
    intro i hi
    obtain ⟨text, ok⟩ := exists_parse_of_mem_discover (found ▸ hi)
    exact isRead_of_parse ok
  simp only [listed, List.forall_mem_cons]
  exact ⟨isRead_of_map core, isRead_of_map folder, own, isRead_of_map standard, by simp⟩

/-- Without issues the sketch's imports are all found. -/
theorem discovered_of_noIssues (hs : Sketch.parse (Tab.join tabs) = .ok s)
    (htiers : importTiers o (discover s.items).1 = .ok tiers) (noIssues : structuralIssues o s = []) :
    tiers.discovered.map sourceLine = s.importDecls.map ImportDecl.line := by
  rw [structuralIssues, List.append_eq_nil_iff, List.append_eq_nil_iff] at noIssues
  have noBad := noIssues.1.2
  rw [discover_issues hs, List.map_eq_nil_iff, List.filter_eq_nil_iff] at noBad
  have points : s.importDecls.filter (fun d => '.' ∈ d.name.toList) = s.importDecls :=
    List.filter_eq_self.2 fun d hd => by simpa using noBad d hd
  obtain ⟨-, -, found, -⟩ := parsed_of_importTiers htiers
  rw [found, sourceLine_discover hs, points]

theorem listsImports_of_success (h : preprocess o t date tabs = .ok (.success p)) :
    ∃ s tiers, Sketch.parse (Tab.join tabs) = .ok s ∧ ListsImports o date s tiers p := by
  obtain ⟨s, tiers, draft, hs, htiers, room, none, -, hp⟩ := exists_result_of_success h
  obtain ⟨core, folder, -, standard⟩ := parsed_of_importTiers htiers
  have lines := discovered_of_noIssues hs htiers none
  have dedup := deduplicated_eq (isRead_of_importTiers htiers)
  have kept : (freshTiers [] tiers.listed).flatten = p.imports := by
    rw [hp, ← dedup]
    rfl
  have imports : p.imports =
      fresh [] (tiers.core ++ tiers.codeFolder ++ tiers.discovered ++ tiers.standard) := by
    rw [← kept, flatten_freshTiers]
    simp [listed]
  have represented : ∀ d ∈ s.importDecls, ∃ i ∈ p.imports, i.sourceLine = d.line := by
    intro d hd
    have shown : d.line ∈ tiers.discovered.map sourceLine := lines ▸ List.mem_map_of_mem hd
    obtain ⟨i, hi, line⟩ := List.mem_map.1 shown
    have given : i ∈ tiers.core ++ tiers.codeFolder ++ tiers.discovered ++ tiers.standard :=
      List.mem_append_left _ (List.mem_append_right _ hi)
    obtain ⟨j, hj, same⟩ := exists_fresh_of_mem given
    exact ⟨j, imports ▸ hj, (sourceLine_of_identity same).trans line⟩
  obtain ⟨opening, hopening, written⟩ :=
    Frame.exists_opening (frame_header_eq (fun cramped => room (.inl cramped)) tiers date)
  have header := header_of_success hs htiers h
  rw [headerText, written, dedup] at header
  exact ⟨s, tiers, hs, core, folder, lines, standard, imports, represented, kept, opening, hopening,
    header⟩

/-- No import is lost, and none is listed twice. -/
theorem imports_listed_once (o : Options) (t : MessageTable) (date : String) (tabs : List Tab) :
    (∀ source s, Sketch.parse source = .ok s →
      (discover s.items).2 = (s.importDecls.filter fun d => '.' ∉ d.name.toList).map fun d =>
        ⟨d.span.lo, MessageTable.badImport⟩) ∧
    ∀ p, preprocess o t date tabs = .ok (.success p) →
      ∃ s tiers, Sketch.parse (Tab.join tabs) = .ok s ∧ ListsImports o date s tiers p :=
  ⟨fun _ _ hs => discover_issues hs, fun _ h => listsImports_of_success h⟩

/-- An import of the options and one of the code folder that the sketch repeats, a static one, and a
standard one that the sketch lists first. -/
theorem imports_listed_once_of_repeated :
    let o : Options := { Options.standard with
      testing := true
      coreImports := ["a.B"]
      codeFolderPackages := ["l"]
      defaultImports := ["u.*", "u.F"] }
    let tabs : List Tab := [⟨"a", "import u.*; import static a.B.c; import l.*; import a.B;".toList⟩]
    let front := "import a.B;\n\nimport l.*;\n\nimport u.*;\nimport static a.B.c;\n\nimport u.F;\n\n"
    (∃ s, Sketch.parse "import a; import b.C;".toList = .ok s ∧
      (discover s.items).2 = [⟨0, MessageTable.badImport⟩]) ∧
    ∃ s tiers p, Sketch.parse (Tab.join tabs) = .ok s ∧
      preprocess o .standard "" tabs = .ok (.success p) ∧ ListsImports o "" s tiers p ∧
      front.toList <+: p.program := by
  intro o tabs front
  obtain ⟨bad, found⟩ := imports_listed_once o .standard "" tabs
  constructor
  · have reported : (Sketch.parse "import a; import b.C;".toList).toOption.any fun s =>
        decide (((s.importDecls.filter fun d => '.' ∉ d.name.toList).map fun d =>
          (⟨d.span.lo, MessageTable.badImport⟩ : StructuralIssue)) =
            [⟨0, MessageTable.badImport⟩]) := by decide +kernel
    simp only [Option.any_eq_true, decide_eq_true_eq] at reported
    obtain ⟨s, hs, issues⟩ := reported
    have parsed := ok_of_toOption hs
    exact ⟨s, parsed, (bad _ s parsed).trans issues⟩
  · obtain ⟨s, p, hs, ran, shown⟩ := @exists_run o tabs
      (fun _ program => decide (front.toList <+: program))
      (by decide +kernel) (by decide) rfl (by decide +kernel)
    obtain ⟨s', tiers, hs', lists⟩ := found p ran
    obtain rfl := Except.ok.inj (hs'.symm.trans hs)
    exact ⟨s', tiers, p, hs, ran, lists, of_decide_eq_true shown⟩

end Preprocess

end SketchPrep
