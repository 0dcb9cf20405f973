import SketchPrep.Preprocess
import SketchPrep.Proofs.Settings.Copying

/-!
The stages of a run: it reads the configured imports, writes the header, walks, looks for issues,
writes the footer and records the edits. A theorem for each way in which it ends.
-/

namespace SketchPrep

namespace Frame

variable {o : Options} {mode : SketchMode}

theorem indent?_eq_none_iff {level : Nat} :
    o.indent? level = none ↔ stringLimit ≤ o.tabSize * level := by
  unfold Options.indent?
  split
  · simp; omega
  · simp; omega

/-- Only the header of a static sketch is indented. -/
theorem header?_eq_none_iff {tiers : List (List ImportStatement)} {date : String} :
    header? o mode tiers date = none ↔ mode = .static ∧ stringLimit ≤ o.tabSize := by
  cases mode with
  | static =>
    have room := @indent?_eq_none_iff o 1
    cases h : o.indent? 1 <;> simp_all [header?, opening?]
  | _ => simp [header?, opening?]

theorem indents?_eq_none_iff : indents? o = none ↔ stringLimit ≤ 3 * o.tabSize := by
  have room₁ := @indent?_eq_none_iff o 1
  have room₂ := @indent?_eq_none_iff o 2
  have room₃ := @indent?_eq_none_iff o 3
  cases h₁ : o.indent? 1 with
  | none => simp_all [indents?]; omega
  | some one =>
    cases h₂ : o.indent? 2 with
    | none => simp_all [indents?]; omega
    | some two =>
      cases h₃ : o.indent? 3 with
      | none => simp_all [indents?]; omega
      | some three => simp_all [indents?]; omega

/-- All levels of a footer have to have room, whatever it is made of. -/
theorem footer?_eq_none_iff {s : Settings} {hasMain : Bool} :
    footer? o mode s hasMain = none ↔ mode ≠ .java ∧ stringLimit ≤ 3 * o.tabSize := by
  have room := @indents?_eq_none_iff o
  unfold footer?
  split
  · simp [*]
  · cases h : indents? o <;> simp_all

end Frame

namespace Preprocess

variable {o : Options} {t : MessageTable} {date : String} {tabs : List Tab} {source : Text}
  {s : Sketch} {tiers : ImportTiers}

/-! ### What a run makes -/

/-- What is found in a sketch when it is preprocessed. -/
def findings (o : Options) (s : Sketch) : List Finding :=
  Finding.ofItems ⟨s.mode, o.substituteUnicode⟩ s.items

def structuralIssues (o : Options) (s : Sketch) : List StructuralIssue :=
  mixedModeIssues s ++ (ImportTiers.discover s.items).2 ++ Finding.issues (findings o s)

def header (o : Options) (s : Sketch) (tiers : ImportTiers) (date : String) : String :=
  (Frame.header? o s.mode tiers.deduplicated date).getD ""

/-- What stands before the tabs in the program. -/
def headerText (o : Options) (s : Sketch) (tiers : ImportTiers) (date : String) : Text :=
  Finding.Context.prepare ⟨s.mode, o.substituteUnicode⟩ (header o s tiers date).toList

def footer (o : Options) (source : Text) (s : Sketch) : String :=
  (Frame.footer? o s.mode (Finding.settings source (findings o s))
    (Finding.hasMain (findings o s))).getD ""

/-- What stands behind the tabs in the program. -/
def footerText (o : Options) (source : Text) (s : Sketch) : Text :=
  Finding.Context.prepare ⟨s.mode, o.substituteUnicode⟩ (footer o source s).toList

/-- What a run is to edit. -/
def plan (o : Options) (source : Text) (s : Sketch) (tiers : ImportTiers) (date : String) : Plan :=
  ⟨headerText o s tiers date, Finding.requests (findings o s), footerText o source s⟩

/-- What a run tells of a sketch whose plan has been carried out. -/
def result (o : Options) (source : Text) (s : Sketch) (tiers : ImportTiers) (date : String)
    (edits : List Edit) (program : Text) : PreprocessedSketch where
  mode := s.mode
  className := className o s.mode s.items
  headerLines := (headerText o s tiers date).count '\n'
  imports := tiers.deduplicated.flatten
  edits
  width := (Finding.settings source (findings o s)).width
  height := (Finding.settings source (findings o s)).height
  renderer := (Finding.settings source (findings o s)).renderer
  hasMain := Finding.hasMain (findings o s)
  program

/-! ### Room for indentation -/

/-- The header of the sketch is too long for a string. -/
def HeaderCramped (o : Options) (s : Sketch) : Prop := s.mode = .static ∧ stringLimit ≤ o.tabSize

/-- The header of the sketch is too long for a string or, if nothing is wrong with the sketch, its
footer. -/
def Cramped (o : Options) (s : Sketch) : Prop :=
  HeaderCramped o s ∨ structuralIssues o s = [] ∧ s.mode ≠ .java ∧ stringLimit ≤ 3 * o.tabSize

instance (o : Options) (s : Sketch) : Decidable (HeaderCramped o s) :=
  inferInstanceAs (Decidable (_ ∧ _))

instance (o : Options) (s : Sketch) : Decidable (Cramped o s) :=
  inferInstanceAs (Decidable (_ ∨ _))

/-- Tabs of a width that anyone would choose. -/
theorem not_cramped (h : 3 * o.tabSize < stringLimit) (s : Sketch) : ¬Cramped o s := by
  unfold Cramped HeaderCramped
  omega

theorem frame_header_eq (h : ¬HeaderCramped o s) (tiers : ImportTiers) (date : String) :
    Frame.header? o s.mode tiers.deduplicated date = some (header o s tiers date) := by
  cases made : Frame.header? o s.mode tiers.deduplicated date with
  | none => exact absurd (Frame.header?_eq_none_iff.1 made) h
  | some text => rw [header, made, Option.getD_some]

/-- There is room for the footer of the sketch. -/
def Foots (o : Options) (source : Text) (s : Sketch) : Prop :=
  Frame.footer? o s.mode (Finding.settings source (findings o s)) (Finding.hasMain (findings o s)) =
    some (footer o source s)

theorem foots_of_not_cramped (h : ¬Cramped o s) (none : structuralIssues o s = []) (source : Text) :
    Foots o source s := by
  unfold Foots
  cases made : Frame.footer? o s.mode (Finding.settings source (findings o s))
      (Finding.hasMain (findings o s)) with
  | none => exact absurd (.inr ⟨none, Frame.footer?_eq_none_iff.1 made⟩) h
  | some text => rw [footer, made, Option.getD_some]

/-! ### Ends of a run -/

theorem ofSketch_of_invalid {e : ImportStatement.Invalid}
    (h : importTiers o (ImportTiers.discover s.items).1 = .error e) :
    ofSketch o t date tabs source s = .error (.invalidImport e) := by
  unfold ofSketch
  simp only [h]
  rfl

theorem ofSketch_of_headerCramped (h : importTiers o (ImportTiers.discover s.items).1 = .ok tiers)
    (cramped : HeaderCramped o s) : ofSketch o t date tabs source s = .error .noRoom := by
  unfold ofSketch
  simp only [h, pure_bind, Frame.header?_eq_none_iff.2 cramped]
  rfl

section Walked

variable (h : importTiers o (ImportTiers.discover s.items).1 = .ok tiers)
  (copies : ∀ call ∈ (findings o s).filterMap Finding.call?, Settings.Copies source call)

include h copies

theorem ofSketch_of_issues (room : ¬HeaderCramped o s) (issues : structuralIssues o s ≠ []) :
    ofSketch o t date tabs source s =
      .ok (.failure ((structuralIssues o s).map (structuralIssue t tabs))) := by
  have copied : Finding.settings? source (findings o s) = some _ := Settings.ofCalls?_eq_some copies
  rw [findings] at copied
  unfold ofSketch
  simp only [h, pure_bind, frame_header_eq room, copied, Option.getDM]
  split
  · rename_i none
    exact absurd none issues
  · rfl

theorem ofSketch_of_cramped (room : ¬HeaderCramped o s) (cramped : Cramped o s) :
    ofSketch o t date tabs source s = .error .noRoom := by
  have copied : Finding.settings? source (findings o s) = some _ := Settings.ofCalls?_eq_some copies
  rw [findings] at copied
  obtain ⟨none, framed⟩ := cramped.resolve_left room
  unfold ofSketch
  simp only [h, pure_bind, frame_header_eq room, copied, Option.getDM,
    Frame.footer?_eq_none_iff.2 framed]
  split
  · rfl
  · rename_i issues
    exact absurd none issues

theorem ofSketch_of_carriedOut {program : Text} {draft : Draft} (room : ¬Cramped o s)
    (none : structuralIssues o s = [])
    (carried : carryOut o source (plan o source s tiers date) = .ok (draft, program)) :
    ofSketch o t date tabs source s =
      .ok (.success (result o source s tiers date draft.edits program)) := by
  have copied : Finding.settings? source (findings o s) = some _ := Settings.ofCalls?_eq_some copies
  have made := foots_of_not_cramped room none source
  rw [findings] at copied
  rw [Foots, Finding.settings, findings] at made
  unfold ofSketch
  simp only [h, pure_bind, frame_header_eq fun cramped => room (.inl cramped), copied, Option.getDM]
  split
  · simp only [made, pure_bind]
    simp only [plan, headerText, footerText, findings] at carried
    rw [carried]
    rfl
  · rename_i issues
    exact absurd none issues

end Walked

end Preprocess

end SketchPrep
