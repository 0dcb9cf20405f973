import SketchPrep.Proofs.Edit.Lines
import SketchPrep.Proofs.Finding.Lines
import SketchPrep.Proofs.Preprocess.Outcome
import SketchPrep.Proofs.Sketch.ProgramMap

/-!
The lines of the program. Main statement: `toProgramLine?_add`, a line of the tabs that is kept
comes as many lines later as the header has, less the line feeds that are deleted before it.
-/

namespace SketchPrep.Preprocess

open Edit Text Token

variable {o : Options} {t : MessageTable} {date : String} {tabs : List Tab} {p : PreprocessedSketch}
  {ts : Tokens}

/-- The substitution of characters breaks no line. -/
theorem not_mem_of_mem_substitution {d : Draft} {offset q : Nat} {cs text : Text}
    (h : .insert q text ∈ (substitutionRequests d offset cs).map Draft.Request.edit) :
    '\n' ∉ text := by
  induction cs generalizing offset with
  | nil => simp [substitutionRequests] at h
  | cons c cs ih =>
    rw [map_edit_substitutionRequests, List.mem_append] at h
    rcases h with h | h
    · split at h
      · cases h
      · rename_i beyond
        simp only [Bool.or_eq_true, not_or, Bool.not_eq_true] at beyond
        simp only [charEdits, List.mem_cons, reduceCtorEq, Edit.insert.injEq, List.not_mem_nil,
          or_false, false_or] at h
        intro feed
        rw [h.2] at feed
        exact (Literal.isAscii_of_mem_escapeChar beyond.1 feed).2 rfl
    · exact ih h

/-- The edits of a run but for the header. -/
structure Framed (tabs : List Tab) (p : PreprocessedSketch) (header : Text) (others : List Edit) :
    Prop where
  edits : p.edits = .insert 0 header :: others
  lines : p.headerLines = header.count '\n'
  plain : ∀ q text, q < (Tab.join tabs).size → .insert q text ∈ others → '\n' ∉ text

/-- Apart from the header and the footer nothing that is inserted breaks a line. -/
theorem exists_framed (h : preprocess o t date tabs = .ok (.success p))
    (hts : tokenize (Tab.join tabs) = .ok ts) (plain : ∀ x ∈ ts.body, x.kind ≠ .textBlock) :
    ∃ header others, Framed tabs p header others := by
  obtain ⟨s, tiers, planned, hs, -, lines, hedits⟩ := exists_edits_of_success h
  have line := Finding.onOneLine_ofItems hs hts plain ⟨s.mode, o.substituteUnicode⟩
  refine ⟨_, _, hedits, lines, ?_⟩
  intro q text before inserted
  rw [List.append_assoc, List.mem_append, List.mem_append] at inserted
  rcases inserted with inserted | inserted | inserted
  · obtain ⟨request, hrequest, edit⟩ := List.mem_map.1 inserted
    cases request with
    | insert =>
      obtain ⟨rfl, rfl⟩ := Edit.insert.inj edit
      exact line _ _ hrequest
    | delete => cases edit
  · split at inserted
    · cases inserted
    · obtain ⟨rfl, -⟩ := Edit.insert.inj (List.mem_singleton.1 inserted)
      exact absurd before (Nat.lt_irrefl _)
  · unfold lastEdits at inserted
    split at inserted
    · exact not_mem_of_mem_substitution inserted
    · cases inserted

/-- What is inserted before the end of the tabs has the line feeds of the header and no others. -/
theorem Framed.count_insertedAt {header : Text} {others : List Edit} {q : Nat}
    (framed : Framed tabs p header others) (before : q < (Tab.join tabs).size) :
    (insertedAt p.edits q).count '\n' = if q = 0 then p.headerLines else 0 := by
  have rest : (insertedAt others q).count '\n' = 0 :=
    Edit.count_insertedAt fun text inserted => framed.plain q text before inserted
  rw [framed.edits, insertedAt_cons, List.count_append, rest, Nat.add_zero]
  split
  · rename_i front
    rw [front, insertedAt_insert_self, framed.lines]
  · rename_i behind
    rw [insertedAt_insert_of_ne (Ne.symm behind), List.count_nil]

theorem Framed.count_front {header a rest : Text} {others : List Edit}
    (framed : Framed tabs p header others) (cut : Tab.join tabs = a ++ rest)
    (before : a.size < (Tab.join tabs).size) :
    (front p.edits a).count '\n' + deletedFeeds (Tab.join tabs) p.edits a.size =
      p.headerLines + a.count '\n' := by
  have start := framed.count_insertedAt (Nat.zero_lt_of_lt before)
  rw [if_pos rfl] at start
  rw [Edit.count_front cut, start]
  intro q lo hi
  have nothing := framed.count_insertedAt (Nat.lt_of_le_of_lt hi before)
  rw [if_neg (Nat.ne_of_gt lo)] at nothing
  exact nothing

/-- A byte of a tab that is not deleted: its line in the program and the line feeds that are deleted
before it are together its line in the tabs and the lines of the header. -/
theorem toProgramLine?_add (h : preprocess o t date tabs = .ok (.success p))
    (hts : tokenize (Tab.join tabs) = .ok ts) (plain : ∀ x ∈ ts.body, x.kind ≠ .textBlock) :
    ∃ m, p.programMap? tabs = some m ∧ ∀ k tab i, tabs[k]? = some tab → i ≤ tab.text.size →
      IsBoundary tab.text i → deletesAt p.edits (Tab.startOf tabs k + i) = false →
      ∃ line column n, Tab.lineColumn? tabs (Tab.startOf tabs k + i) = some (line, column) ∧
        m.toProgramLine? k i = some n ∧
        n + deletedFeeds (Tab.join tabs) p.edits (Tab.startOf tabs k + i) =
          p.headerLines + line := by
  obtain ⟨recordable, offsets, made⟩ := recordable_of_success h
  obtain ⟨header, others, framed⟩ := exists_framed h hts plain
  have maps := recordable.maps made
  refine ⟨⟨tabs, p.program, offsets⟩, ?_, fun k tab i htab hi boundary kept => ?_⟩
  · rw [PreprocessedSketch.programMap?, ProgramMap.ofEdits?, made]
    rfl
  · have inside := Tab.startOf_add_lt htab hi
    have landed := maps.toOutput_kept _ ⟨inside, kept⟩
    obtain ⟨a, rest, cut, place⟩ := Tab.exists_append_of_isBoundary htab boundary
    rw [← place] at inside landed ⊢
    have program : p.program = front p.edits a ++ renderFrom p.edits a.size rest := by
      rw [← front_append, ← cut]
      exact program_eq h
    have reached : (front p.edits a).size = landing p.edits a.size := size_front (cut ▸ recordable)
    have lines := framed.count_front cut inside
    refine ⟨a.count '\n' + 1, (Text.lineColumn a).2, (front p.edits a).count '\n' + 1, ?_, ?_,
      by omega⟩
    · have here : (Tab.join tabs).split? a.size = some (a, rest) := split?_eq_some.2 ⟨cut, rfl⟩
      rw [Tab.lineColumn?, Nat.min_eq_left (Nat.le_of_lt inside), here]
      rfl
    · have here : p.program.split? (front p.edits a).size =
          some (front p.edits a, renderFrom p.edits a.size rest) := split?_eq_some.2 ⟨program, rfl⟩
      have fits : (front p.edits a).size ≤ p.program.size := by
        rw [program, size_append]
        exact Nat.le_add_right _ _
      have goes : ProgramMap.toProgram ⟨tabs, p.program, offsets⟩ k i = (front p.edits a).size := by
        rw [ProgramMap.toProgram, ← place, landed, reached]
      rw [ProgramMap.toProgramLine?, goes, Nat.min_eq_left fits, here]
      rfl

/-- Without the substitution of characters only the walk deletes. -/
theorem deletesAt_of_success {s : Sketch} (plain : o.substituteUnicode = false)
    (hs : Sketch.parse (Tab.join tabs) = .ok s) (h : preprocess o t date tabs = .ok (.success p)) :
    deletesAt p.edits = deletesAt (Finding.edits (findings o s)) := by
  obtain ⟨s', tiers, planned, hs', -, -, hedits⟩ := exists_edits_of_success h
  obtain rfl := Except.ok.inj (hs'.symm.trans hs)
  funext q
  have header : deletesAt [.insert 0 (headerText o s' tiers date)] q = false := rfl
  have footer (text : Text) :
      deletesAt (if text = [] then [] else [.insert (Tab.join tabs).size text]) q = false := by
    split <;> rfl
  rw [hedits, ← List.singleton_append, lastEdits, plain, deletesAt_append, deletesAt_append,
    deletesAt_append, header, footer]
  simp [deletesAt]

/-- An import and a call that moves, either of them on two lines: the second tab begins on the sixth
line, and two line feeds are deleted before it. -/
theorem toProgramLine?_add_of_two_line_import :
    let tabs : List Tab := [⟨"a", "import\n a.B;\nsize(2,\n 3);\nint x = #00ff00;".toList⟩,
      ⟨"b", "float y = 1.5;".toList⟩]
    ∃ p ts, preprocess .standard .standard "" tabs = .ok (.success p) ∧
      tokenize (Tab.join tabs) = .ok ts ∧ (∀ x ∈ ts.body, x.kind ≠ .textBlock) ∧
      ∃ m n, p.programMap? tabs = some m ∧ m.toProgramLine? 1 0 = some n ∧
        n + 2 = p.headerLines + 6 := by
  intro tabs
  have parsed : (Sketch.parse (Tab.join tabs)).toOption.any (fun s =>
      decide (structuralIssues .standard s = []) &&
        !deletesAt (Finding.edits (findings .standard s)) (Tab.startOf tabs 1 + 0) &&
        deletedFeeds (Tab.join tabs) (Finding.edits (findings .standard s))
          (Tab.startOf tabs 1 + 0) = 2) := by decide +kernel
  have tokens : (tokenize (Tab.join tabs)).toOption.any
      (fun ts => ts.body.all (·.kind ≠ .textBlock)) := by decide +kernel
  cases hs : Sketch.parse (Tab.join tabs) with
  | error e => simp [hs, Except.toOption] at parsed
  | ok s =>
    cases hts : tokenize (Tab.join tabs) with
    | error e => simp [hts, Except.toOption] at tokens
    | ok ts =>
      simp only [hs, Except.toOption, Option.any_some, Bool.and_eq_true, decide_eq_true_eq,
        Bool.not_eq_true'] at parsed
      obtain ⟨⟨none, kept⟩, feeds⟩ := parsed
      have plain : ∀ x ∈ ts.body, x.kind ≠ .textBlock := by
        simpa [hts, Except.toOption] using tokens
      obtain ⟨tiers, p, -, ran, -⟩ :=
        exists_success importsValid_standard hs (not_cramped (by decide) s) none .standard ""
      have gone := deletesAt_of_success rfl hs ran
      obtain ⟨m, mapped, lines⟩ := toProgramLine?_add ran hts plain
      obtain ⟨line, column, n, there, here, sum⟩ := lines 1 ⟨"b", "float y = 1.5;".toList⟩ 0 rfl
        (by decide) (by decide) (by rw [gone]; exact kept)
      have sixth : Tab.lineColumn? tabs (Tab.startOf tabs 1 + 0) = some (6, 0) := by decide +kernel
      obtain ⟨rfl, rfl⟩ := Prod.mk.inj (Option.some.inj (there.symm.trans sixth))
      rw [deletedFeeds, gone] at sum
      rw [deletedFeeds] at feeds
      exact ⟨p, ts, ran, rfl, plain, m, n, mapped, here, feeds ▸ sum⟩

end SketchPrep.Preprocess
