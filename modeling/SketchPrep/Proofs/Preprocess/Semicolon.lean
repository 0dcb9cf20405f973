import SketchPrep.Preprocess
import SketchPrep.Proofs.Diagnosis.Expectation
import SketchPrep.Proofs.Diagnosis.Location
import SketchPrep.Proofs.Syntax.Position

/-!
Where a sketch is said to lack a semicolon. Main statement: `preprocess_of_missing_semicolon`, at the
end of the last token of an earlier line, if nothing between it and the line where reading stopped
is mistaken for a token.
-/

namespace SketchPrep.Preprocess

open Text Token

variable {o : Options} {t : MessageTable} {date : String} {tabs : List Tab} {e : SyntaxError}

theorem preprocess_of_error (h : Sketch.parse (Tab.join tabs) = .error e) :
    preprocess o t date tabs = .ok (.failure [syntaxIssue t (Tab.join tabs) e]) := by
  simp only [preprocess, h]

/-- An error stands on a line of its source. -/
theorem line_of_parse {source : Text} (h : Sketch.parse source = .error e) :
    1 ≤ e.start.line ∧ e.start.line ≤ source.count '\n' + 1 := by
  have stands := Sketch.standsIn_of_parse h
  obtain ⟨before, behind, cut, size⟩ := isBoundary_iff.1 stands.isBoundary
  have place := stands.lineColumn before behind cut size
  have line : before.count '\n' + 1 = e.start.line := congrArg Prod.fst place
  rw [cut, List.count_append]
  omega

/-- A semicolon that is missing at the end of an earlier line is missed there. -/
theorem preprocess_of_missing_semicolon {ts : Tokens} {found : String} {last : Token}
    {before : Text} (tokens : tokenize (Tab.join tabs) = .ok ts)
    (h : Sketch.parse (Tab.join tabs) = .error e) (cause : e.cause = .missing (.word ";") found)
    (brace : found ≠ "\x7b") (inert : Rule.Inert found.toList) (hlast : last ∈ ts.body)
    (stop : before.size = last.stop)
    (precedes : Issue.Precedes (Tab.join tabs) e.start.line before) :
    ∃ line column, Tab.lineColumn? tabs last.stop = some (line, column) ∧
      preprocess o t date tabs =
        .ok (.failure [⟨line, column, t.render MessageTable.missingDefault ";"⟩]) := by
  obtain ⟨g, cut, -⟩ := precedes.cut
  obtain ⟨behind, whole⟩ := Issue.exists_takeLines (e.start.line - 1) (Tab.join tabs)
  rw [cut, List.append_assoc] at whole
  have hint : Hint.ofMessage t (e.message (Tab.join tabs)) =
      ⟨t.render MessageTable.missingDefault ";", true⟩ := by
    have known := Sketch.hint_of_missing h cause inert t
    simpa [brace] using known
  obtain ⟨first, fits⟩ := line_of_parse h
  have place := Issue.locate_prior tokens hlast first fits stop precedes e.start.column
  refine ⟨before.lineColumn.1, before.lineColumn.2, ?_, ?_⟩
  · rw [← stop]
    exact Tab.lineColumn?_eq whole
  · rw [preprocess_of_error h, syntaxIssue]
    simp only [Issue.diagnose, hint, place]

/-- The comment and the empty line behind the token are left out. -/
theorem preprocess_of_missing_semicolon_behind_comment :
    let tabs : List Tab := [⟨"a", "int x = 5 // five\n\nint y = 6;".toList⟩]
    preprocess .standard .standard "" tabs =
      .ok (.failure [⟨1, 9, "Syntax Error - Missing ';'?"⟩]) := by
  intro tabs
  have read : (tokenize (Tab.join tabs)).toOption.any (fun ts : Tokens =>
      ts.body.any fun t => decide (t.stop = 9)) = true := by decide +kernel
  cases tokens : tokenize (Tab.join tabs) with
  | error u =>
    rw [tokens] at read
    cases read
  | ok ts =>
    rw [tokens] at read
    obtain ⟨last, hlast, stop⟩ := List.any_eq_true.1 read
    have stop : last.stop = 9 := of_decide_eq_true stop
    have h : Sketch.parse (Tab.join tabs) = .error ⟨.missing (.word ";") "int", ⟨19, 3, 0⟩⟩ :=
      Sketch.parse_eq_error (by decide +kernel)
    have inert : Rule.Inert "int".toList := ⟨by decide, by decide, by decide⟩
    have comment : LastToken.Shown "/ five".toList :=
      ⟨⟨"/ fiv".toList, 'e', rfl, by decide⟩, by decide, by decide +kernel, by decide⟩
    have plain : LastToken.IsPlain " // five\n\n".toList :=
      .blank (by decide)
        (@LastToken.IsPlain.line " five".toList [] _ comment (List.forall_mem_nil _) (by decide)
          (.blank (by decide) .nil))
    have cut : Issue.takeLines 2 (Tab.join tabs) =
        "int x = 5".toList ++ " // five\n\n".toList := by decide +kernel
    have precedes : Issue.Precedes (Tab.join tabs) 3 "int x = 5".toList :=
      ⟨⟨_, cut, plain⟩, by decide +kernel, by decide +kernel⟩
    have size : Text.size "int x = 5".toList = last.stop := by
      rw [stop]
      decide +kernel
    obtain ⟨line, column, place, run⟩ := @preprocess_of_missing_semicolon .standard .standard ""
      tabs _ ts "int" last _ tokens h rfl (by simp) inert hlast size precedes
    have known : Tab.lineColumn? tabs 9 = some (1, 9) := by decide +kernel
    rw [stop, known] at place
    obtain ⟨rfl, rfl⟩ := Prod.mk.inj (Option.some.inj place)
    have words : MessageTable.standard.render MessageTable.missingDefault ";" =
        "Syntax Error - Missing ';'?" := by decide +kernel
    rwa [words] at run

/-- A semicolon is missed in the midst of a string that has two slashes in it, and in front of the
line if the token stands on the line where reading stopped. -/
theorem preprocess_of_missing_semicolon_ne :
    preprocess .standard .standard ""
        [⟨"a", "String u = \"http://x\"\nint y = 6;".toList⟩] =
      .ok (.failure [⟨1, 17, "Syntax Error - Missing ';'?"⟩]) ∧
    preprocess .standard .standard "" [⟨"a", "int x = 5 int y = 6;".toList⟩] =
      .ok (.failure [⟨1, 0, "Syntax Error - Missing ';'?"⟩]) := by
  have failed {tabs : List Tab} {e : SyntaxError} {issue : Issue}
      (h : Sketch.parse (Tab.join tabs) = .error e)
      (shown : syntaxIssue .standard (Tab.join tabs) e = issue) :
      preprocess .standard .standard "" tabs = .ok (.failure [issue]) := by
    rw [preprocess_of_error h, shown]
  constructor
  · refine @failed _ ⟨.missing (.word ";") "int", ⟨22, 2, 0⟩⟩ _ (Sketch.parse_eq_error ?_) ?_
    · decide +kernel
    · decide +kernel
  · refine @failed _ ⟨.missing (.word ";") "int", ⟨10, 1, 10⟩⟩ _ (Sketch.parse_eq_error ?_) ?_
    · decide +kernel
    · decide +kernel

end SketchPrep.Preprocess
